import Maestro.GgufBytes
import Maestro.Text
import Mathlib.Logic.Function.Basic

/-!
# What a model file says about itself

The metadata at the head of a GGUF file: a magic, a version, two counts, and
typed key-value pairs. A few values are kept, the others stepped over.
-/
namespace Maestro.Gguf
open Reading

/-- The most pairs a file may declare. -/
def MAX_PAIRS : ℕ := 2 ^ 16

/-- The longest key kept. -/
def MAX_KEY_BYTES : ℕ := 1024

/-- The longest string value kept. -/
def MAX_KEPT_TEXT_BYTES : ℕ := 256

/-- The most elements a per-layer array may carry. -/
def MAX_LAYER_ARRAY : ℕ := 2 ^ 20

def STRING : ℕ := 8

def ARRAY : ℕ := 9

/-- The keys read as metadata, and what they said. -/
structure Metadata where
  architecture : Option String
  numbers : String → Option ℕ
  layers : String → Option (List ℕ)

/-- A file that has said nothing yet. -/
def Metadata.empty : Metadata := ⟨none,fun _ => none,fun _ => none⟩

section Accessors
variable (self : Metadata)

/-- An integer value by its full key, or the largest element of an array. -/
def Metadata.number (key : String) : Option ℕ := self.numbers key

/-- An integer value under the architecture's own prefix. -/
def Metadata.ofModel (suffix : String) : Option ℕ := self.architecture.bind fun name => self.number s!"{name}.{suffix}"

/-- A per-layer array under the architecture's own prefix, in file order. -/
def Metadata.perLayer (suffix : String) : Option (List ℕ) := self.architecture.bind fun name => self.layers s!"{name}.{suffix}"

/-- How many shards the model is split across, when this file is one. -/
def Metadata.splitCount : Option ℕ := self.number "split.count"

end Accessors

/-- Whether a key is one of the tokenizer's. -/
def ofTokenizer (key : String) : Bool := "tokenizer.".toList.isPrefixOf key.toList

/-- Whether a key says something of each layer. -/
def isPerLayer (key : String) : Bool :=
  [".attention.head_count_kv",".attention.head_count",".attention.sliding_window_pattern"].any fun ending =>
    ending.toList.isSuffixOf key.toList

/-- One element of a per-layer array, beside the largest so far. -/
def keepLayer (kept : Option ℕ × List ℕ) (element : Option ℕ) : Option ℕ × List ℕ :=
  (max kept.1 element,kept.2 ++ element.toList)

/-- What a per-layer array leaves. -/
def Metadata.insertLayers (self : Metadata) (key : String) (kept : Option ℕ × List ℕ) : Metadata where
  architecture := self.architecture
  numbers := match kept.1 with
    | some largest => Function.update self.numbers key (some largest)
    | none => self.numbers
  layers := if kept.2.isEmpty then self.layers else Function.update self.layers key (some kept.2)

/-- A per-layer array is reduced to its largest element; every other array is
    stepped over. -/
def Metadata.array (self : Metadata) (key : String) : Reads Fault Metadata := do
  let kind ← u32At
  let count ← u64At
  if isPerLayer key && kind ≠ STRING && kind ≠ ARRAY then
    if count > MAX_LAYER_ARRAY then throw ⟨s!"'{key}' claims {count} layers"⟩
    let kept ← times (fun kept => do return keepLayer kept (← scalarAt kind)) count (none,[])
    return self.insertLayers key kept
  if kind = STRING then
    times (fun () => do let _ ← textAt 0) count ()
    return self
  if kind = ARRAY then throw ⟨s!"'{key}' nests arrays"⟩
  let bytes := count * (← width kind)
  if bytes ≥ 2 ^ 64 then throw ⟨s!"'{key}' claims an impossible length"⟩
  skip bytes
  return self

/-- One value, of the kind a pair announces. -/
def Metadata.value (self : Metadata) (key : String) (kind : ℕ) : Reads Fault Metadata := do
  if kind = STRING then
    let kept ← textAt MAX_KEPT_TEXT_BYTES
    return if key = "general.architecture" then { self with architecture := kept } else self
  if kind = ARRAY then
    return ← self.array key
  let number ← scalarAt kind
  return match number.filter fun _ => !ofTokenizer key with
    | some number => { self with numbers := Function.update self.numbers key (some number) }
    | none => self

/-- One pair. -/
def Metadata.pair (self : Metadata) : Reads Fault Metadata := do
  match ← textAt MAX_KEY_BYTES with
  | none => throw ⟨"a key longer than any the format uses"⟩
  | some key =>
    let kind ← u32At
    self.value key kind

def MAGIC : List UInt8 := textBytes "GGUF"

def Metadata.fill (self : Metadata) (length : ℕ) : Reads Fault Metadata := do
  let magic ← bytesAt 4
  if magic ≠ MAGIC then throw ⟨"does not begin with the GGUF magic"⟩
  let version ← u32At
  if ¬ (2 ≤ version ∧ version ≤ 3) then throw ⟨s!"GGUF version {version} is not one this reads"⟩
  let _tensors ← u64At
  let pairs ← u64At
  if pairs > MAX_PAIRS then throw ⟨s!"claims {pairs} metadata pairs"⟩
  let filled ← times Metadata.pair pairs self
  let position := (← get).position
  if position > length then throw ⟨"ends before its metadata does"⟩
  return filled

/-- The metadata at the head of a file that is open. -/
def Metadata.ofFile (file : File) : Except Fault Metadata :=
  (Metadata.empty.fill file.bytes.length ⟨file,0⟩).map Prod.fst

/-! ## The pairs, and the last look at the position -/

/-- What comes before the last look at the position. -/
def Metadata.body (self : Metadata) : Reads Fault Metadata := do
  let magic ← bytesAt 4
  if magic ≠ MAGIC then throw ⟨"does not begin with the GGUF magic"⟩
  let version ← u32At
  if ¬ (2 ≤ version ∧ version ≤ 3) then throw ⟨s!"GGUF version {version} is not one this reads"⟩
  let _tensors ← u64At
  let pairs ← u64At
  if pairs > MAX_PAIRS then throw ⟨s!"claims {pairs} metadata pairs"⟩
  times Metadata.pair pairs self

/-- The last look at the position. -/
def Metadata.ended (length : ℕ) (filled : Metadata) : Reads Fault Metadata := do
  let position := (← get).position
  if position > length then throw ⟨"ends before its metadata does"⟩
  return filled

theorem fill_eq (self : Metadata) (length : ℕ) : self.fill length = self.body >>= Metadata.ended length := by
  unfold Metadata.fill Metadata.body
  rw [bind_assoc]
  apply bind_congr
  intro magic
  split_ifs
  · rfl
  rw [bind_assoc]
  apply bind_congr
  intro version
  split_ifs
  swap
  · rfl
  dsimp only
  rw [bind_assoc]
  apply bind_congr
  intro tensors
  rw [bind_assoc]
  apply bind_congr
  intro pairs
  split_ifs <;> rfl

/-- What is read in whole is read before the last look, and no further than the
    file is long. -/
theorem fill_eq_ok {self metadata : Metadata} {length : ℕ} {reader after : Reader} :
    self.fill length reader = .ok (metadata,after) ↔ self.body reader = .ok (metadata,after) ∧ after.position ≤ length := by
  have last (filled : Metadata) (mid : Reader) : filled.ended length mid =
      if mid.position > length then .error ⟨"ends before its metadata does"⟩ else .ok (filled,mid) := by
    show (if mid.position > length then throw _ >>= fun _ => pure filled else pure filled : Reads Fault Metadata) mid = _
    split_ifs <;> rfl
  rw [fill_eq]
  constructor
  · intro is
    obtain ⟨filled,mid,body,ends⟩ := bind_eq_ok.mp is
    rw [last] at ends
    split_ifs at ends with beyond
    cases ends
    exact ⟨body,Nat.not_lt.mp beyond⟩
  · rintro ⟨body,within⟩
    refine bind_eq_ok.mpr ⟨metadata,after,body,?_⟩
    rw [last,if_neg (Nat.not_lt.mpr within)]

theorem ofFile_eq_ok {file : File} {metadata : Metadata} : Metadata.ofFile file = .ok metadata ↔
    ∃ after, Metadata.empty.fill file.bytes.length ⟨file,0⟩ = .ok (metadata,after) := by
  unfold Metadata.ofFile
  constructor
  · intro is
    cases reads : Metadata.empty.fill file.bytes.length ⟨file,0⟩ with
    | error fault =>
      rw [reads] at is
      cases is
    | ok read =>
      rw [reads] at is
      cases is
      exact ⟨read.2,rfl⟩
  · rintro ⟨after,is⟩
    rw [is]
    rfl

/-! ## Numbers of 64 bits -/

/-- Every number kept is one of 64 bits. -/
structure Metadata.Small (metadata : Metadata) : Prop where
  numbers : ∀ key n, metadata.numbers key = some n → n < 2 ^ 64
  layers : ∀ key counts, metadata.layers key = some counts → ∀ n ∈ counts, n < 2 ^ 64

theorem signed_lt {width : ℕ} (positive : 0 < width) (small : width ≤ 8) (bytes : List UInt8) {n : ℕ}
    (is : nonNegative (signed width bytes) = some n) : n < 2 ^ 64 := by
  unfold nonNegative at is
  split_ifs at is with positive
  cases is
  have bound : signed width bytes < 2 ^ (8 * width - 1) := BitVec.toInt_lt
  have wide : (2 : ℤ) ^ (8 * width - 1) ≤ 2 ^ 63 := pow_le_pow_right₀ (by norm_num) (by omega)
  omega

theorem unsigned_lt {kind : ℕ} {bytes : List UInt8} (eight : bytes.length ≤ 8) {n : ℕ} (is : unsigned kind bytes = some n) :
    n < 2 ^ 64 := by
  have spelled : fromLeBytes bytes < 2 ^ 64 := by
    have bound := fromLeBytes_lt bytes
    have wide : 256 ^ bytes.length ≤ 256 ^ 8 := Nat.pow_le_pow_right (by decide) eight
    omega
  unfold unsigned at is
  split at is
  · cases is
    exact spelled
  · cases is
    exact spelled
  · cases is
    exact spelled
  · cases is
    exact spelled
  · cases is
    split_ifs <;> omega
  · exact signed_lt (by decide) (by decide) bytes is
  · exact signed_lt (by decide) (by decide) bytes is
  · exact signed_lt (by decide) (by decide) bytes is
  · exact signed_lt (by decide) (by decide) bytes is
  · cases is

theorem scalarAt_ensures (kind : ℕ) : Ensures (scalarAt kind) fun number => ∀ n, number = some n → n < 2 ^ 64 := by
  unfold scalarAt
  cases is : width kind with
  | error fault => exact Ensures.throws fault
  | ok taken =>
    have eight : taken ≤ 8 := by
      unfold width at is
      split at is <;> cases is <;> decide
    show Ensures (bytesAt taken >>= fun bytes => pure (unsigned kind (bytes ++ List.replicate (8 - taken) 0))) _
    refine (exactly_ensures _ taken).bind fun bytes short => Ensures.pure ?_
    intro n number
    refine unsigned_lt ?_ number
    rw [List.length_append,List.length_replicate]
    omega

theorem insertLayers_small {self : Metadata} (small : self.Small) (key : String) {kept : Option ℕ × List ℕ}
    (largest : ∀ n, kept.1 = some n → n < 2 ^ 64) (each : ∀ n ∈ kept.2, n < 2 ^ 64) : (self.insertLayers key kept).Small where
  numbers := by
    intro other n is
    unfold Metadata.insertLayers at is
    cases max_is : kept.1 with
    | none =>
      rw [max_is] at is
      exact small.numbers other n is
    | some max =>
      rw [max_is] at is
      by_cases same : other = key
      · subst same
        simp only [Function.update_self,Option.some.injEq] at is
        exact is ▸ largest max max_is
      · simp only [Function.update_of_ne same] at is
        exact small.numbers other n is
  layers := by
    intro other counts is
    unfold Metadata.insertLayers at is
    dsimp only at is
    split_ifs at is
    · exact small.layers other counts is
    · by_cases same : other = key
      · subst same
        simp only [Function.update_self,Option.some.injEq] at is
        exact is ▸ each
      · rw [Function.update_of_ne same] at is
        exact small.layers other counts is

theorem array_ensures {self : Metadata} (small : self.Small) (key : String) : Ensures (self.array key) Metadata.Small := by
  unfold Metadata.array
  refine (Ensures.any _).bind fun kind _ => (Ensures.any _).bind fun count _ => ?_
  split_ifs
  · exact Ensures.throws _
  · let fine (kept : Option ℕ × List ℕ) : Prop := (∀ n, kept.1 = some n → n < 2 ^ 64) ∧ ∀ n ∈ kept.2, n < 2 ^ 64
    have each (kept) (holds : fine kept) :
        Ensures (do return keepLayer kept (← scalarAt kind) : Reads Fault (Option ℕ × List ℕ)) fine := by
      refine (scalarAt_ensures kind).bind fun element bound => Ensures.pure ⟨?_,?_⟩
      · intro n is
        cases element with
        | none => exact holds.1 n (by simpa [keepLayer] using is)
        | some m =>
          have m_small := bound m rfl
          cases before : kept.1 with
          | none =>
            have same : m = n := by simpa [keepLayer,before] using is
            omega
          | some l =>
            have l_small := holds.1 l before
            have same : max l m = n := by simpa [keepLayer,before] using is
            omega
      · intro n inside
        rcases List.mem_append.mp inside with earlier | last
        · exact holds.2 n earlier
        · exact bound n (Option.mem_toList.mp last)
    refine (times_ensures each count ⟨?_,?_⟩).bind fun kept holds => Ensures.pure (insertLayers_small small key holds.1 holds.2)
    · intro n is
      cases is
    · intro n inside
      cases inside
  · exact (Ensures.any _).bind fun _ _ => Ensures.pure small
  · exact Ensures.throws _
  · refine (Ensures.any _).bind fun wide _ => ?_
    dsimp only
    split_ifs
    · exact Ensures.throws _
    · exact (Ensures.any _).bind fun _ _ => Ensures.pure small

theorem value_ensures {self : Metadata} (small : self.Small) (key : String) (kind : ℕ) :
    Ensures (self.value key kind) Metadata.Small := by
  unfold Metadata.value
  by_cases string : kind = STRING
  · rw [if_pos string]
    refine (Ensures.any _).bind fun kept _ => Ensures.pure ?_
    split_ifs
    · exact ⟨small.numbers,small.layers⟩
    · exact small
  rw [if_neg string]
  by_cases array : kind = ARRAY
  · rw [if_pos array]
    exact array_ensures small key
  rw [if_neg array]
  refine (scalarAt_ensures kind).bind fun number bound => Ensures.pure ?_
  cases is : number.filter fun _ => !ofTokenizer key with
  | none => exact small
  | some n =>
    have n_small : n < 2 ^ 64 := bound n (Option.eq_some_of_filter_eq_some is)
    refine ⟨fun other m told => ?_,small.layers⟩
    by_cases same : other = key
    · subst same
      simp only [Function.update_self,Option.some.injEq] at told
      omega
    · simp only [Function.update_of_ne same] at told
      exact small.numbers other m told

theorem pair_ensures {self : Metadata} (small : self.Small) : Ensures self.pair Metadata.Small := by
  unfold Metadata.pair
  refine (Ensures.any _).bind fun found _ => ?_
  cases found with
  | none => exact Ensures.throws _
  | some key => exact (Ensures.any _).bind fun kind _ => value_ensures small key kind

/-- Whatever a file says, its numbers are of 64 bits. -/
theorem ofFile_small {file : File} {metadata : Metadata} (is : Metadata.ofFile file = .ok metadata) : metadata.Small := by
  have empty : Metadata.empty.Small := by
    constructor
    · intro key n is
      cases is
    · intro key counts is
      cases is
  have fills (length : ℕ) : Ensures (Metadata.empty.fill length) Metadata.Small := by
    unfold Metadata.fill
    refine (Ensures.any _).bind fun magic _ => ?_
    dsimp only
    split_ifs
    · exact Ensures.stops _ _
    refine (Ensures.any _).bind fun version _ => ?_
    split_ifs
    swap
    · exact Ensures.stops _ _
    refine (Ensures.any _).bind fun tensors _ => (Ensures.any _).bind fun pairs _ => ?_
    split_ifs
    · exact Ensures.stops _ _
    refine (times_ensures (fun self small => pair_ensures small) pairs empty).bind fun filled small => ?_
    refine (Ensures.any _).bind fun reader _ => ?_
    split_ifs
    · exact Ensures.stops _ _
    · exact Ensures.pure small
  obtain ⟨after,reads⟩ := ofFile_eq_ok.mp is
  exact fills file.bytes.length ⟨file,0⟩ metadata after reads

end Maestro.Gguf
