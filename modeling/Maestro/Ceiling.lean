import Maestro.Ledger
import Maestro.Memory

/-!
# The ceiling a machine sets for itself

Where no budget is configured the machine's own figures set one: the device's
total less a margin, or a share of system memory where there is no device. What
is derived is what the machine says it holds or less, wherever anything is left
of it and the share does not leave the range of `u64`.
-/
namespace Maestro.Admission
open Memory (Tools Probe)

/-! ## Deriving a budget -/

/-- What is kept back from the device's total, at the least. -/
def MIN_DEVICE_MARGIN_MIB : ℕ := 1024

/-- What may be held of system memory, in percent. -/
def SYSTEM_SHARE_PERCENT : ℕ := 80

/-- A budget with the probe for the checks beyond the ceiling, and where the
    ceiling came from. -/
structure Ceiling extends Budget where
  probe : Probe
  source : String
deriving DecidableEq, Repr

/-- `u32::try_from`, at the largest there is where the figure does not fit. -/
def narrowed (limit : ℕ) : ℕ := if limit < 2 ^ 32 then limit else 2 ^ 32 - 1

/-- A limit of nothing is no limit. -/
def someLimit (limit : ℕ) : Option ℕ := if limit > 0 then some limit else none

/-- A budget the machine itself sets, the device first. -/
def Ceiling.derived (tools : Tools) (probe : Probe) : Option Ceiling := do
  let (limitMib,source) ← match ← probe.device tools with
    | some device =>
      let margin := max (device.totalMib / 10) MIN_DEVICE_MARGIN_MIB
      let limit := device.totalMib - margin
      some (someLimit limit,s!"derived from the device ({device.totalMib} MiB total less a {margin} MiB margin)")
    | none => match probe.systemTotalMib tools with
      | some total => do
        let share ← Checked.mul 64 total SYSTEM_SHARE_PERCENT
        let limit := share / 100
        some (someLimit limit,s!"derived from system memory ({SYSTEM_SHARE_PERCENT} percent of {total} MiB)")
      | none => some (none,"nothing on this machine says what it holds")
  return ⟨⟨limitMib.map narrowed⟩,probe,source⟩

example : (Ceiling.derived ⟨.Other,fun _ _ => none,fun _ => none⟩
    (.Fixed ⟨some ⟨32607,0⟩,some 48175,⟨none,none⟩⟩)).bind (·.limitMib) = some 29347 := by decide

/-! ## What a machine says it holds -/

/-- The total a budget is derived from. -/
inductive Figure
  | Device (mib : ℕ)
  | System (mib : ℕ)
deriving DecidableEq, Repr

/-- What a probe reports: the device's total or, failing that, the system's. -/
def reported (tools : Tools) (probe : Probe) : Option Figure :=
  match probe.device tools with
  | none => none
  | some (some device) => some (.Device device.totalMib)
  | some none => (probe.systemTotalMib tools).map .System

namespace Figure

def mib : Figure → ℕ
  | .Device mib => mib
  | .System mib => mib

/-- What may be held of it. -/
def share : Figure → ℕ
  | .Device mib => mib - max (mib / 10) MIN_DEVICE_MARGIN_MIB
  | .System mib => mib * SYSTEM_SHARE_PERCENT / 100

/-- A figure of the same kind, as large or larger. -/
def Below : Figure → Figure → Prop
  | .Device a, .Device b => a ≤ b
  | .System a, .System b => a ≤ b
  | _, _ => False

/-- The figures a ceiling can be derived from: more than the least margin of a
    device, or enough system memory for a share of one mebibyte and not so much
    that its percentage leaves the range. -/
def Usable : Figure → Prop
  | .Device mib => 1024 < mib
  | .System mib => 2 ≤ mib ∧ mib * 80 < 2 ^ 64

/-- The limit of it, in the range of its type; none where the percentage leaves
    the range. -/
def ceiling : Figure → Option (Option ℕ)
  | .Device mib => some ((someLimit (share (.Device mib))).map narrowed)
  | .System mib => (Checked.mul 64 mib SYSTEM_SHARE_PERCENT).map fun share => (someLimit (share / 100)).map narrowed

theorem share_le (self : Figure) : self.share ≤ self.mib := by
  cases self with
  | Device mib => exact Nat.sub_le _ _
  | System mib =>
    simp only [share,Figure.mib,SYSTEM_SHARE_PERCENT]
    omega

theorem share_mono {a b : Figure} (below : a.Below b) : a.share ≤ b.share := by
  cases a with
  | Device a =>
    cases b with
    | Device b =>
      simp only [Below] at below
      simp only [share,MIN_DEVICE_MARGIN_MIB]
      omega
    | System b => exact below.elim
  | System a =>
    cases b with
    | Device b => exact below.elim
    | System b =>
      simp only [Below] at below
      simp only [share,SYSTEM_SHARE_PERCENT]
      omega

theorem share_pos {self : Figure} (usable : self.Usable) : 0 < self.share := by
  cases self with
  | Device mib =>
    simp only [Usable] at usable
    simp only [share,MIN_DEVICE_MARGIN_MIB]
    omega
  | System mib =>
    simp only [Usable] at usable
    simp only [share,SYSTEM_SHARE_PERCENT]
    omega

end Figure

/-! ## What is derived from it -/

theorem narrowed_le (limit : ℕ) : narrowed limit ≤ limit := by
  unfold narrowed
  split_ifs
  · exact le_rfl
  · omega

theorem narrowed_mono {a b : ℕ} (le : a ≤ b) : narrowed a ≤ narrowed b := by
  unfold narrowed
  split_ifs <;> omega

section Derived
variable {tools : Tools} {probe : Probe} {figure : Figure} {budget : Ceiling} {limit : ℕ}

/-- What is derived, by the figure it is derived from. -/
theorem derived_limit (is : reported tools probe = some figure) :
    (Ceiling.derived tools probe).map (fun budget => budget.limitMib) = figure.ceiling := by
  unfold reported at is
  unfold Ceiling.derived
  cases asked : probe.device tools with
  | none => simp [asked] at is
  | some answer =>
    cases answer with
    | some device =>
      simp only [asked,Option.some.injEq] at is
      subst is
      rfl
    | none =>
      simp only [asked,Option.map_eq_some_iff] at is
      obtain ⟨total,there,rfl⟩ := is
      simp only [there,Option.bind_eq_bind,Option.bind_some,Figure.ceiling]
      cases Checked.mul 64 total SYSTEM_SHARE_PERCENT with
      | none => rfl
      | some share => rfl

theorem someLimit_pos {limit : ℕ} (pos : 0 < limit) : someLimit limit = some limit := if_pos pos

/-- The budget of a figure that can be used is its share, in the range of its
    type. -/
theorem derived_of_usable (is : reported tools probe = some figure) (usable : figure.Usable) :
    ∃ budget, Ceiling.derived tools probe = some budget ∧ budget.limitMib = some (narrowed figure.share) := by
  have limit := derived_limit is
  have pos := Figure.share_pos usable
  have set : (Ceiling.derived tools probe).map (fun budget => budget.limitMib) = some (some (narrowed figure.share)) := by
    cases figure with
    | Device mib => rw [limit,Figure.ceiling,someLimit_pos pos,Option.map_some]
    | System mib =>
      have product : Checked.mul 64 mib SYSTEM_SHARE_PERCENT = some (mib * SYSTEM_SHARE_PERCENT) := Checked.mul_of_lt usable.2
      have some_share : someLimit (mib * SYSTEM_SHARE_PERCENT / 100) = some (Figure.System mib).share := someLimit_pos pos
      rw [limit,Figure.ceiling,product,Option.map_some,some_share,Option.map_some]
  exact Option.map_eq_some_iff.mp set

/-- Of any other figure nothing is derived, or no limit. -/
theorem derived_of_unusable (is : reported tools probe = some figure) (unusable : ¬ figure.Usable)
    (derived : Ceiling.derived tools probe = some budget) : budget.limitMib = none := by
  have limit := derived_limit is
  rw [derived,Option.map_some] at limit
  cases figure with
  | Device mib =>
    have empty : ¬ (Figure.Device mib).share > 0 := by
      simp only [Figure.Usable] at unusable
      simp only [Figure.share,MIN_DEVICE_MARGIN_MIB]
      omega
    rw [Option.some.inj limit,someLimit,if_neg empty,Option.map_none]
  | System mib =>
    obtain ⟨share,product,made⟩ := Option.map_eq_some_iff.mp limit.symm
    obtain ⟨fits,rfl⟩ := Checked.mul_eq_some.mp product
    have empty : ¬ mib * SYSTEM_SHARE_PERCENT / 100 > 0 := by
      simp only [Figure.Usable] at unusable
      simp only [SYSTEM_SHARE_PERCENT] at fits ⊢
      omega
    rw [← made,someLimit,if_neg empty,Option.map_none]

theorem limit_of_usable (is : reported tools probe = some figure) (usable : figure.Usable)
    (derived : Ceiling.derived tools probe = some budget) (set : budget.limitMib = some limit) : limit = narrowed figure.share := by
  obtain ⟨other,same,share⟩ := derived_of_usable is usable
  rw [derived] at same
  cases same
  rw [set] at share
  exact Option.some.inj share

/-- A limit is set only where the figure can be used. -/
theorem usable_of_limit (is : reported tools probe = some figure) (derived : Ceiling.derived tools probe = some budget)
    (set : budget.limitMib = some limit) : figure.Usable := by
  by_contra unusable
  rw [derived_of_unusable is unusable derived] at set
  cases set

end Derived

/-! ## What is held under it -/

/-- The ledger's cost once the named are unloaded and the wanted is started. -/
def costAfter (loaded : List Loaded) (ids : List String) (wanted : Wanted) : ℕ :=
  ((loaded.filter fun entry => !ids.contains entry.id).map Loaded.costMib).sum + wanted.costMib

section Held
variable {budget : Budget} {loaded : List Loaded} {wanted : Wanted} {free : Option ℕ} {limit : ℕ}

theorem unnamed_eq (loaded : List Loaded) (ids : List String) :
    ((loaded.filter fun entry => !ids.contains entry.id).map Loaded.costMib).sum =
      (loaded.map fun entry => if entry.id ∈ ids then 0 else entry.costMib).sum := by
  induction loaded with
  | nil => rfl
  | cons entry loaded ih =>
    rw [List.map_cons,List.sum_cons,← ih]
    by_cases named : entry.id ∈ ids
    · simp [named]
    · simp [named]

theorem costAfter_le (limited : budget.limitMib = some limit) {chosen : List Loaded} (part : chosen.Subperm loaded)
    (room : RoomAfter budget loaded wanted free chosen) : costAfter loaded (chosen.map Loaded.id) wanted ≤ limit := by
  have ledger := room.1 limit limited
  have beside := Threads.unnamed_add_chosen_le part
  rw [costAfter,unnamed_eq]
  omega

/-- What an entry is let in beside is within the limit. -/
theorem fits_within (limited : budget.limitMib = some limit) (absent : ¬ IsLoaded loaded wanted)
    (fits : budget.admit loaded wanted free = some .Fits) : costAfter loaded [] wanted ≤ limit :=
  costAfter_le limited List.nil_subperm (fits_room absent fits)

theorem unload_within (limited : budget.limitMib = some limit) {ids : List String}
    (unload : budget.admit loaded wanted free = some (.Unload ids)) : costAfter loaded ids wanted ≤ limit := by
  obtain ⟨chosen,rfl,part,room⟩ := unload_room unload
  have inside : chosen.Subperm loaded := part.trans (candidates_perm.subperm.trans (List.filter_sublist ..).subperm)
  exact costAfter_le limited inside room

end Held

/-! ## A ceiling the machine can hold -/

/-- A machine that says what it holds gets a ceiling it can hold: a limit is
    set, of what is reported at the most; a larger total of the kind sets no
    smaller one; and nothing is started beyond what is reported. -/
structure HoldsWhatItSays (tools : Tools) (probe : Probe) (figure : Figure) : Prop where
  sets : ∃ budget limit, Ceiling.derived tools probe = some budget ∧ budget.limitMib = some limit
  bounded : ∀ budget limit, Ceiling.derived tools probe = some budget → budget.limitMib = some limit → limit ≤ figure.mib
  grows : ∀ budget limit, Ceiling.derived tools probe = some budget → budget.limitMib = some limit →
    ∀ tools' probe' figure' budget' limit', reported tools' probe' = some figure' →
      Ceiling.derived tools' probe' = some budget' → budget'.limitMib = some limit' →
      (figure.Below figure' → limit ≤ limit') ∧ (figure'.Below figure → limit' ≤ limit)
  fits : ∀ budget, Ceiling.derived tools probe = some budget → ∀ loaded wanted free, ¬ IsLoaded loaded wanted →
    budget.admit loaded wanted free = some .Fits → costAfter loaded [] wanted ≤ figure.mib
  unload : ∀ budget, Ceiling.derived tools probe = some budget → ∀ loaded wanted free ids,
    budget.admit loaded wanted free = some (.Unload ids) → costAfter loaded ids wanted ≤ figure.mib

section Holds
variable {tools : Tools} {probe : Probe} {figure : Figure}

theorem holds_of_usable (is : reported tools probe = some figure) (usable : figure.Usable) : HoldsWhatItSays tools probe figure := by
  obtain ⟨own,made,share⟩ := derived_of_usable is usable
  have below : narrowed figure.share ≤ figure.mib := (narrowed_le _).trans figure.share_le
  refine ⟨⟨own,_,made,share⟩,?_,?_,?_,?_⟩
  · intro budget limit derived set
    rw [limit_of_usable is usable derived set]
    exact below
  · intro budget limit derived set tools' probe' figure' budget' limit' other derived' set'
    rw [limit_of_usable is usable derived set,limit_of_usable other (usable_of_limit other derived' set') derived' set']
    exact ⟨fun more => narrowed_mono (Figure.share_mono more),fun less => narrowed_mono (Figure.share_mono less)⟩
  · intro budget derived loaded wanted free absent fits
    rw [made] at derived
    cases derived
    exact (fits_within share absent fits).trans below
  · intro budget derived loaded wanted free ids unload
    rw [made] at derived
    cases derived
    exact (unload_within share unload).trans below

theorem unusable_sets_none (is : reported tools probe = some figure) (unusable : ¬ figure.Usable) :
    ¬ HoldsWhatItSays tools probe figure := by
  intro holds
  obtain ⟨budget,limit,derived,set⟩ := holds.sets
  exact unusable (usable_of_limit is derived set)

/-- A machine that says what it holds gets a ceiling it can hold exactly where
    its figure can be used. -/
theorem ceiling_held_iff (is : reported tools probe = some figure) : HoldsWhatItSays tools probe figure ↔ figure.Usable := by
  constructor
  · intro holds
    by_contra unusable
    exact unusable_sets_none is unusable holds
  · exact holds_of_usable is

end Holds

/-- A machine none of whose tools answers. -/
def mute : Tools := ⟨.Other,fun _ _ => none,fun _ => none⟩

def deviceOf (mib : ℕ) : Probe := .Fixed ⟨some ⟨mib,0⟩,none,⟨none,none⟩⟩

def systemOf (mib : ℕ) : Probe := .Fixed ⟨none,some mib,⟨none,none⟩⟩

theorem large_device_held : HoldsWhatItSays mute (deviceOf 32607) (.Device 32607) ↔ (Figure.Device 32607).Usable :=
  ceiling_held_iff rfl

/-- A device no larger than its margin sets no limit, no more does the system
    memory of which the share is nothing; the percentage of the largest total
    leaves the range. -/
theorem no_ceiling_set :
    (reported mute (deviceOf 1024) = some (.Device 1024) ∧ ¬ HoldsWhatItSays mute (deviceOf 1024) (.Device 1024)) ∧
    (reported mute (systemOf 1) = some (.System 1) ∧ ¬ HoldsWhatItSays mute (systemOf 1) (.System 1)) ∧
    reported mute (systemOf (2 ^ 64 - 1)) = some (.System (2 ^ 64 - 1)) ∧
      ¬ HoldsWhatItSays mute (systemOf (2 ^ 64 - 1)) (.System (2 ^ 64 - 1)) := by
  refine ⟨⟨rfl,?_⟩,⟨rfl,?_⟩,rfl,?_⟩
  · exact unusable_sets_none rfl (by simp [Figure.Usable])
  · exact unusable_sets_none rfl (by simp [Figure.Usable])
  · exact unusable_sets_none rfl (by simp [Figure.Usable])

/-! ## The figures of a machine's own tools -/

theorem scaled_small {text : List Char} {perMib total : ℕ} (coarse : 1024 ≤ perMib)
    (is : Memory.scaled text perMib = some total) : total < 2 ^ 54 := by
  obtain ⟨count,read,rfl⟩ := Option.map_eq_some_iff.mp is
  have fits := (Text.parseUnsigned_eq_some.mp read).2
  calc count / perMib ≤ count / 1024 := Nat.div_le_div_left coarse (by decide)
    _ < 2 ^ 54 := by omega

/-- A tool counts in kibibytes or in bytes, so the percentage of what it says
    stays in its range. -/
theorem systemTotal_small {tools : Tools} {total : ℕ} (is : Memory.systemTotalMib tools = some total) : total < 2 ^ 54 := by
  unfold Memory.systemTotalMib at is
  split at is
  · obtain ⟨text,_,read⟩ := Option.bind_eq_some_iff.mp is
    obtain ⟨line,_,more⟩ := Option.bind_eq_some_iff.mp read
    obtain ⟨figure,_,scaled⟩ := Option.bind_eq_some_iff.mp more
    exact scaled_small (by decide) scaled
  · obtain ⟨text,_,scaled⟩ := Option.bind_eq_some_iff.mp is
    exact scaled_small (by decide) scaled
  · obtain ⟨text,_,scaled⟩ := Option.bind_eq_some_iff.mp is
    exact scaled_small (by decide) scaled
  · cases is

/-- Asked of the machine itself, system memory sets a ceiling but for the
    smallest. -/
theorem machine_usable_iff {tools : Tools} {machine : Memory.Machine} {mib : ℕ}
    (is : reported tools (.Machine machine) = some (.System mib)) : (Figure.System mib).Usable ↔ 2 ≤ mib := by
  have small : mib < 2 ^ 54 := by
    unfold reported at is
    split at is
    · cases is
    · cases is
    · obtain ⟨total,read,same⟩ := Option.map_eq_some_iff.mp is
      cases same
      exact systemTotal_small read
  simp only [Figure.Usable]
  omega

end Maestro.Admission
