import Maestro.Admission
import Maestro.Drafts
import Maestro.Estimate

/-!
# The readers of a flag that has several spellings

A reader stops at the first spelling that is there, or asks whether any of them
says so. The two agree exactly where no later spelling says what the first does
not.
-/
namespace Maestro

/-! ## The endpoint an entry is measured at -/

namespace Bench

/-- The endpoint that will answer, and the unit the answer comes back in. -/
inductive Answers
  | Completions
  | Embeddings
  | Reranking
deriving DecidableEq, Repr

/-- Which endpoint answers for an entry with these flags. -/
def answers (flags : List (String × String)) : Answers :=
  let set := fun name => (flags.lookup name).any fun value =>
    let value := String.ofList (Text.toAsciiLowercase (Text.trim value.toList))
    !(value = "false" || value = "0")
  if set "reranking" || set "rerank" then .Reranking
  else if set "embeddings" || set "embedding" then .Embeddings
  else .Completions

example : answers [] = .Completions ∧ answers [("embeddings","true")] = .Embeddings ∧ answers [("reranking","true")] = .Reranking ∧
    answers [("embeddings","false")] = .Completions := by decide

end Bench

/-! ## The first spelling, and any spelling -/

namespace Flags
open Estimate (flag keepsNoCache runsOnProcessor)

section
variable (flags : List (String × String)) (names : List String) (tells : String → Bool)

/-- Some spelling that is there says so. -/
def any : Bool := names.any fun name => (flags.lookup name).any tells

/-- Where the first spelling that is there does not say so, none that is there
    does. -/
def Leads : Prop := ∀ first, flag flags names = some first → tells first = false →
  ∀ name ∈ names, ∀ value, flags.lookup name = some value → tells value = false

variable {flags names tells}

theorem any_eq_true : any flags names tells = true ↔ ∃ name ∈ names, ∃ value, flags.lookup name = some value ∧ tells value = true := by
  simp only [any,List.any_eq_true,Option.any_eq_true]

theorem flag_mem {first : String} (is : flag flags names = some first) : ∃ name ∈ names, flags.lookup name = some first :=
  List.exists_of_findSome?_eq_some is

/-- Where any spelling is there, one of them is the first. -/
theorem flag_isSome {name value : String} (inside : name ∈ names) (is : flags.lookup name = some value) :
    ∃ first, flag flags names = some first := by
  rw [← Option.isSome_iff_exists,flag,List.findSome?_isSome_iff]
  exact ⟨name,inside,by simp [is]⟩

/-- The first spelling says what any of them does exactly where it leads. -/
theorem first_iff_any : ((flag flags names).any tells = true ↔ any flags names tells = true) ↔ Leads flags names tells := by
  constructor
  · intro agree first first_is silent name inside value is
    by_contra spoken
    have told := agree.mpr (any_eq_true.mpr ⟨name,inside,value,is,by simpa using spoken⟩)
    rw [first_is,Option.any_some,silent] at told
    cases told
  · intro leads
    constructor
    · intro told
      obtain ⟨first,first_is,holds⟩ := (Option.any_eq_true _ _).mp told
      obtain ⟨name,inside,is⟩ := flag_mem first_is
      exact any_eq_true.mpr ⟨name,inside,first,is,holds⟩
    · intro told
      obtain ⟨name,inside,value,is,holds⟩ := any_eq_true.mp told
      obtain ⟨first,first_is⟩ := flag_isSome inside is
      rw [first_is,Option.any_some]
      by_contra silent
      rw [leads first first_is (by simpa using silent) name inside value is] at holds
      cases holds

end

/-! ## Who reads what -/

/-- The spellings of how many layers are on the device, as the estimator looks
    them up. -/
def LAYERS : List String := ["n-gpu-layers","gpu-layers","ngl"]

/-- The spellings of the ways to serve that generate nothing. -/
def MODES : List String := ["embeddings","embedding","reranking","rerank"]

/-- A number of layers that keeps them all on the processor. -/
def zero (value : String) : Bool := Text.trimString value = "0"

/-- A switch that is not off. -/
def on (value : String) : Bool :=
  let value := String.ofList (Text.toAsciiLowercase (Text.trim value.toList))
  !(value = "false" || value = "0")

section
variable (entry : Entry)

/-- Admission and the estimator agree on who is off the device; the estimator,
    the catalogue and the bench agree on who generates nothing. -/
structure ReadersAgree : Prop where
  device : Admission.deviceNeedMib entry = 0 ↔ runsOnProcessor entry.flags = true
  offered : keepsNoCache entry.flags = true ↔ entry.generates = false
  addressed : entry.generates = false ↔ Bench.answers entry.flags ≠ .Completions

variable {entry}

theorem runsOnProcessor_eq : runsOnProcessor entry.flags = (flag entry.flags LAYERS).any zero := rfl

theorem keepsNoCache_eq : keepsNoCache entry.flags = (flag entry.flags MODES).any on := rfl

/-- Admission asks whether any spelling says zero, in an order of its own. -/
theorem deviceNeedMib_eq_zero_iff (positive : 0 < entry.memoryEstimateMib) :
    Admission.deviceNeedMib entry = 0 ↔ any entry.flags LAYERS zero = true := by
  have order : (Admission.layersOnDevice.any fun key => (entry.flags.lookup key).any zero) = any entry.flags LAYERS zero :=
    List.Perm.any_eq (by decide)
  unfold Admission.deviceNeedMib
  change (if (Admission.layersOnDevice.any fun key => (entry.flags.lookup key).any zero) = true then 0 else _) = 0 ↔ _
  rw [order]
  split_ifs with off
  · exact iff_of_true rfl off
  · exact iff_of_false (by omega) off

/-- The catalogue asks whether any spelling is on. -/
theorem generates_eq : entry.generates = !any entry.flags MODES on := by
  have filtered : ((MODES.filterMap fun name => entry.flags.lookup name).any on) = any entry.flags MODES on := by
    rw [List.any_filterMap]
    rfl
  rw [← filtered]
  rfl

/-- So does the bench. -/
theorem answers_iff : Bench.answers entry.flags ≠ .Completions ↔ any entry.flags MODES on = true := by
  have switches : any entry.flags MODES on = ((entry.flags.lookup "embeddings").any on ||
      ((entry.flags.lookup "embedding").any on || ((entry.flags.lookup "reranking").any on ||
        ((entry.flags.lookup "rerank").any on || false)))) := rfl
  have answered : Bench.answers entry.flags =
      if ((entry.flags.lookup "reranking").any on || (entry.flags.lookup "rerank").any on) = true then .Reranking
      else if ((entry.flags.lookup "embeddings").any on || (entry.flags.lookup "embedding").any on) = true then .Embeddings
      else .Completions := rfl
  rw [switches,answered]
  cases (entry.flags.lookup "embeddings").any on <;> cases (entry.flags.lookup "embedding").any on <;>
    cases (entry.flags.lookup "reranking").any on <;> cases (entry.flags.lookup "rerank").any on <;> simp

/-- All readers of a flag agree exactly where the first spelling leads the
    others, of the layers and of the modes. -/
theorem readers_agree_iff (positive : 0 < entry.memoryEstimateMib) : ReadersAgree entry ↔
    Leads entry.flags LAYERS zero ∧ Leads entry.flags MODES on := by
  have unoffered : entry.generates = false ↔ any entry.flags MODES on = true := by
    rw [generates_eq,Bool.not_eq_false']
  constructor
  · rintro ⟨device,offered,_⟩
    rw [deviceNeedMib_eq_zero_iff positive,runsOnProcessor_eq] at device
    rw [unoffered,keepsNoCache_eq] at offered
    exact ⟨first_iff_any.mp device.symm,first_iff_any.mp offered⟩
  · rintro ⟨layers,modes⟩
    refine ⟨?_,?_,unoffered.trans answers_iff.symm⟩
    · rw [deviceNeedMib_eq_zero_iff positive,runsOnProcessor_eq]
      exact (first_iff_any.mpr layers).symm
    · rw [unoffered,keepsNoCache_eq]
      exact first_iff_any.mpr modes

/-! ## An entry's flags over the defaults' -/

/-- An entry with its own flags merged over the defaults'. -/
def entryOver (defaults own : List (String × String)) : Entry :=
  ⟨"m","m.gguf",none,none,4096,.OnDemand,512,none,none,30,none,Keyed.extend defaults own⟩

/-- One spelling throughout is read alike by all. -/
theorem one_spelling_agrees : ReadersAgree (entryOver [("n-gpu-layers","999")] [("n-gpu-layers","0"),("rerank","true")]) := by
  refine (readers_agree_iff (by decide)).mpr ⟨?_,?_⟩ <;> unfold Leads <;> decide

/-- The defaults' layers are in front of the entry's own in another spelling. -/
theorem short_spelling_disagrees : ¬ ReadersAgree (entryOver [("n-gpu-layers","999")] [("ngl","0")]) := by
  rintro ⟨device,_,_⟩
  exact absurd device (by decide)

end
end Flags
end Maestro
