import Maestro.Gguf
import Mathlib.Algebra.BigOperators.Group.List.Basic

/-!
# The GGUF format as it is written

The layout the format specifies, from its value types up, and that what is
written in it is what the reader makes of it.
-/
namespace Maestro.Gguf
open Reading

/-- The scalar types of the format. -/
inductive Kind
  | UINT8
  | INT8
  | UINT16
  | INT16
  | UINT32
  | INT32
  | FLOAT32
  | BOOL
  | UINT64
  | INT64
  | FLOAT64
deriving DecidableEq, Repr

/-- The types as the format numbers them. -/
def Kind.tag : Kind → ℕ
  | UINT8 => 0
  | INT8 => 1
  | UINT16 => 2
  | INT16 => 3
  | UINT32 => 4
  | INT32 => 5
  | FLOAT32 => 6
  | BOOL => 7
  | UINT64 => 10
  | INT64 => 11
  | FLOAT64 => 12

/-- How many bytes a value takes. -/
def Kind.width : Kind → ℕ
  | UINT8 | INT8 | BOOL => 1
  | UINT16 | INT16 => 2
  | UINT32 | INT32 | FLOAT32 => 4
  | UINT64 | INT64 | FLOAT64 => 8

/-- A value of the type, bit for bit. -/
abbrev Kind.Bits (kind : Kind) : Type := BitVec (8 * kind.width)

/-- The non-negative integer a value is, or the flag. -/
def Kind.number (kind : Kind) (bits : kind.Bits) : Option ℕ :=
  match kind with
  | UINT8 | UINT16 | UINT32 | UINT64 => some bits.toNat
  | INT8 | INT16 | INT32 | INT64 => nonNegative bits.toInt
  | BOOL => some (if bits = 0 then 0 else 1)
  | FLOAT32 | FLOAT64 => none

/-- A value, least byte first. -/
def Kind.bytes (kind : Kind) (bits : kind.Bits) : List UInt8 := toLeBytes kind.width bits.toNat

/-- The values of the format; an array holds no array. -/
inductive Value
  | Scalar (kind : Kind) (bits : kind.Bits)
  | Text (string : String)
  | Scalars (kind : Kind) (elements : List kind.Bits)
  | Texts (elements : List String)

def Value.tag : Value → ℕ
  | Scalar kind _ => kind.tag
  | Text _ => STRING
  | Scalars _ _ | Texts _ => ARRAY

def Value.bytes : Value → List UInt8
  | Scalar kind bits => kind.bytes bits
  | Text string => text string
  | Scalars kind elements => toLeBytes 4 kind.tag ++ (toLeBytes 8 elements.length ++ elements.flatMap kind.bytes)
  | Texts elements => toLeBytes 4 STRING ++ (toLeBytes 8 elements.length ++ elements.flatMap text)

/-- A pair: the key, the type of the value, and the value. -/
def pairBytes (pair : String × Value) : List UInt8 := text pair.1 ++ (toLeBytes 4 pair.2.tag ++ pair.2.bytes)

/-- The head of a file. -/
def head (version tensors : ℕ) (pairs : List (String × Value)) : List UInt8 :=
  MAGIC ++ (toLeBytes 4 version ++ (toLeBytes 8 tensors ++ (toLeBytes 8 pairs.length ++ pairs.flatMap pairBytes)))

/-! ## What the pairs say -/

/-- What each element of a per-layer array is. -/
def Kind.Numbers (kind : Kind) (elements : List kind.Bits) (numbers : List ℕ) : Prop :=
  elements.map kind.number = numbers.map some

/-- The number a pair says. -/
inductive Value.Counts (key : String) : Value → ℕ → Prop
  | scalar {kind : Kind} {bits : kind.Bits} {n : ℕ} (plain : ofTokenizer key = false) (is : kind.number bits = some n) :
    Counts key (.Scalar kind bits) n
  | largest {kind : Kind} {elements : List kind.Bits} {numbers : List ℕ} {n : ℕ} (layered : isPerLayer key = true)
    (are : kind.Numbers elements numbers) (is : numbers.max? = some n) : Counts key (.Scalars kind elements) n

/-- The name of the architecture, where a pair says it. -/
inductive Value.Names (key : String) : Value → String → Prop
  | text {name : String} (is : key = "general.architecture") (short : (textBytes name).length ≤ MAX_KEPT_TEXT_BYTES) :
    Names key (.Text name) name

/-- What a pair says of each layer. -/
inductive Value.Layers (key : String) : Value → List ℕ → Prop
  | each {kind : Kind} {elements : List kind.Bits} {numbers : List ℕ} (layered : isPerLayer key = true)
    (are : kind.Numbers elements numbers) (some_layer : numbers ≠ []) : Layers key (.Scalars kind elements) numbers

/-- Pairs that a file may carry: not too many, each key its own and not too
    long, and per-layer arrays of non-negative integers or flags for not too
    many layers. -/
structure Fit (pairs : List (String × Value)) : Prop where
  few : pairs.length ≤ MAX_PAIRS
  distinct : (pairs.map Prod.fst).Nodup
  short : ∀ pair ∈ pairs, (textBytes pair.1).length ≤ MAX_KEY_BYTES
  layers : ∀ key kind elements, (key,Value.Scalars kind elements) ∈ pairs → isPerLayer key = true →
    elements.length ≤ MAX_LAYER_ARRAY ∧ ∃ numbers, kind.Numbers elements numbers

/-! ## Scalars -/

section Scalars
variable {file : File} (kind : Kind) (bits : kind.Bits)

theorem tag_small : kind.tag < 2 ^ 32 := by cases kind <;> decide

theorem tag_plain : kind.tag ≠ STRING ∧ kind.tag ≠ ARRAY := by cases kind <;> decide

theorem width_tag : width kind.tag = .ok kind.width := by cases kind <;> rfl

theorem bits_small : bits.toNat < 256 ^ kind.width := by
  have bound := bits.isLt
  rw [Nat.pow_mul] at bound
  exact bound

theorem bytes_length : (kind.bytes bits).length = kind.width := toLeBytes_length _ _

/-- The bytes of a value spell it. -/
theorem fromLeBytes_bytes : fromLeBytes (kind.bytes bits) = bits.toNat := fromLeBytes_toLeBytes (bits_small kind bits)

theorem signed_bytes (zeros : List UInt8) : signed kind.width (kind.bytes bits ++ zeros) = bits.toInt := by
  have front : (kind.bytes bits ++ zeros).take kind.width = kind.bytes bits := by
    rw [← bytes_length kind bits,List.take_left]
  rw [signed,front,fromLeBytes_bytes,BitVec.ofNat_toNat,BitVec.setWidth_eq]

/-- What the reader makes of a value's bytes is the number it is. -/
theorem unsigned_bytes : unsigned kind.tag (kind.bytes bits ++ List.replicate (8 - kind.width) 0) = kind.number bits := by
  have whole : fromLeBytes (kind.bytes bits ++ List.replicate (8 - kind.width) 0) = bits.toNat := by
    rw [fromLeBytes_padded,fromLeBytes_bytes]
  have sign := signed_bytes kind bits (List.replicate (8 - kind.width) 0)
  cases kind with
  | UINT8 | UINT16 | UINT32 | UINT64 => exact congrArg some whole
  | INT8 | INT16 | INT32 | INT64 => exact congrArg nonNegative sign
  | FLOAT32 | FLOAT64 => rfl
  | BOOL =>
    have small : bits.toNat < 256 := bits_small .BOOL bits
    have byte : (Kind.BOOL.bytes bits ++ List.replicate (8 - Kind.BOOL.width) 0).headD 0 = UInt8.ofNat bits.toNat := by
      show UInt8.ofNat (bits.toNat % 256) = _
      rw [Nat.mod_eq_of_lt small]
    have flag : UInt8.ofNat bits.toNat ≠ 0 ↔ bits ≠ 0 := by
      rw [not_iff_not,← UInt8.toNat_inj,← BitVec.toNat_inj,UInt8.toNat_ofNat',Nat.mod_eq_of_lt small]
      rfl
    show some _ = some _
    rw [byte]
    by_cases zero : bits = 0
    · rw [if_neg (by simp [zero]),if_pos zero]
    · rw [if_pos (flag.mpr zero),if_neg zero]

theorem scalarAt_yields : Yields file (scalarAt kind.tag) (kind.bytes bits) (kind.number bits) := by
  have told : Yields file _ (kind.bytes bits) _ := (bytesAt_yields (bytes_length kind bits)).map fun bytes =>
    unsigned kind.tag (bytes ++ List.replicate (8 - kind.width) 0)
  rw [unsigned_bytes] at told
  unfold scalarAt
  rw [width_tag]
  exact told

end Scalars

/-! ## Pairs -/

/-- What a file says once one more pair is read. -/
def Metadata.keep (self : Metadata) (pair : String × Value) : Metadata :=
  match pair with
  | (key,.Scalar kind bits) => match (kind.number bits).filter fun _ => !ofTokenizer key with
    | some number => { self with numbers := Function.update self.numbers key (some number) }
    | none => self
  | (key,.Text string) =>
    if key = "general.architecture" then
      { self with architecture := if (textBytes string).length ≤ MAX_KEPT_TEXT_BYTES then some string else none }
    else self
  | (key,.Scalars kind elements) =>
    if isPerLayer key then
      self.insertLayers key (elements.foldl (fun kept bits => keepLayer kept (kind.number bits)) (none,[]))
    else self
  | (_,.Texts _) => self

section Pairs
variable {file : File} (self : Metadata) (key : String)

/-- As many items as bytes, at most. -/
theorem length_le_flatMap {α : Type} {bytes : α → List UInt8} {items : List α} (filled : ∀ item, 1 ≤ (bytes item).length) :
    items.length ≤ (items.flatMap bytes).length := by
  rw [List.length_flatMap,← List.length_map (fun item => (bytes item).length)]
  refine List.length_le_sum_of_one_le _ ?_
  intro length inside
  obtain ⟨item,_,rfl⟩ := List.mem_map.mp inside
  exact filled item

theorem kind_bytes_filled (kind : Kind) (bits : kind.Bits) : 1 ≤ (kind.bytes bits).length := by
  rw [bytes_length]
  cases kind <;> decide

theorem text_filled (string : String) : 1 ≤ (text string).length := by
  rw [text,List.length_append,toLeBytes_length]
  omega

/-- The type, and how many there are. -/
theorem counted_yields {α : Type} {tag count : ℕ} (small : tag < 2 ^ 32) (fits : count < 2 ^ 64) {rest : List UInt8}
    {next : ℕ → ℕ → Reads Fault α} {value : α} (reads : Yields file (next tag count) rest value) :
    Yields file (do next (← u32At) (← u64At)) (toLeBytes 4 tag ++ (toLeBytes 8 count ++ rest)) value :=
  (u32At_yields small).bind ((u64At_yields fits).bind reads)

/-- A per-layer array is read element by element. -/
theorem layers_yields {kind : Kind} {elements : List kind.Bits} (layered : isPerLayer key = true)
    (few : elements.length ≤ MAX_LAYER_ARRAY) :
    Yields file (self.array key) (Value.Scalars kind elements).bytes (self.keep (key,.Scalars kind elements)) := by
  refine counted_yields (tag_small kind) (by simp only [MAX_LAYER_ARRAY] at few; omega) ?_
  have each : Yields file _ (elements.flatMap kind.bytes) _ :=
    times_yields (fun kept bits (_ : bits ∈ elements) => (scalarAt_yields kind bits).map (keepLayer kept)) (none,[])
  have here : (isPerLayer key && kind.tag ≠ STRING && kind.tag ≠ ARRAY) = true := by
    simp [layered,tag_plain kind]
  rw [if_pos here,if_neg (Nat.not_lt.mpr few)]
  have kept : self.keep (key,.Scalars kind elements) =
      self.insertLayers key (elements.foldl (fun kept bits => keepLayer kept (kind.number bits)) (none,[])) := if_pos layered
  rw [kept]
  exact each.map (self.insertLayers key)

/-- The elements of any other array are stepped over at once. -/
theorem scalars_yields {kind : Kind} {elements : List kind.Bits} (other : isPerLayer key = false) :
    Yields file (self.array key) (Value.Scalars kind elements).bytes self := by
  refine Yields.of_sized fun sized => ?_
  have whole : (elements.flatMap kind.bytes).length = elements.length * kind.width := by
    rw [List.length_flatMap]
    simp [bytes_length]
  have many : elements.length ≤ elements.length * kind.width := whole ▸ length_le_flatMap (kind_bytes_filled kind)
  simp only [Value.bytes,List.length_append,toLeBytes_length,whole] at sized
  refine counted_yields (tag_small kind) (by omega) ?_
  have here : ¬ (isPerLayer key && kind.tag ≠ STRING && kind.tag ≠ ARRAY) = true := by simp [other]
  rw [if_neg here,if_neg (tag_plain kind).1,if_neg (tag_plain kind).2,width_tag]
  have possible : ¬ elements.length * kind.width ≥ 2 ^ 64 := by omega
  show Yields file (if elements.length * kind.width ≥ 2 ^ 64 then _ else _) _ _
  rw [if_neg possible,← whole]
  exact (skip_yields _).map fun _ => self

/-- So are the strings of an array, one after the other. -/
theorem texts_yields (elements : List String) : Yields file (self.array key) (Value.Texts elements).bytes self := by
  refine Yields.of_sized fun sized => ?_
  have many : elements.length ≤ (elements.flatMap text).length := length_le_flatMap text_filled
  simp only [Value.bytes,List.length_append,toLeBytes_length] at sized
  refine counted_yields (by decide) (by omega) ?_
  have here : ¬ (isPerLayer key && STRING ≠ STRING && STRING ≠ ARRAY) = true := by simp
  rw [if_neg here,if_pos rfl]
  have each : Yields file _ (elements.flatMap text) _ :=
    times_yields (fun (_ : Unit) string (_ : string ∈ elements) => (textAt_yields 0 string).map fun _ => ()) ()
  exact each.map fun _ => self

/-- A value is read as what it is, or stepped over. -/
theorem value_yields (value : Value) (layers : ∀ kind elements, value = .Scalars kind elements → isPerLayer key = true →
    elements.length ≤ MAX_LAYER_ARRAY) : Yields file (self.value key value.tag) value.bytes (self.keep (key,value)) := by
  unfold Metadata.value
  cases value with
  | Scalar kind bits =>
    have reads : Yields file _ (kind.bytes bits) _ := (scalarAt_yields kind bits).map fun number => match number.filter fun _ => !ofTokenizer key with
      | some number => { self with numbers := Function.update self.numbers key (some number) }
      | none => self
    show Yields file (if kind.tag = STRING then _ else if kind.tag = ARRAY then _ else _) _ _
    rw [if_neg (tag_plain kind).1,if_neg (tag_plain kind).2]
    exact reads
  | Text string =>
    have reads : Yields file _ (text string) _ := (textAt_yields MAX_KEPT_TEXT_BYTES string).map fun kept =>
      if key = "general.architecture" then { self with architecture := kept } else self
    exact reads
  | Scalars kind elements =>
    cases layered : isPerLayer key with
    | true => exact layers_yields self key layered (layers kind elements rfl layered)
    | false =>
      have kept : self.keep (key,.Scalars kind elements) = self := by simp [Metadata.keep,layered]
      rw [kept]
      exact scalars_yields self key layered
  | Texts elements => exact texts_yields self key elements

theorem value_tag_small (value : Value) : value.tag < 2 ^ 32 := by
  cases value with
  | Scalar kind _ => exact tag_small kind
  | Text _ => exact (by decide : STRING < 2 ^ 32)
  | Scalars _ _ | Texts _ => exact (by decide : ARRAY < 2 ^ 32)

theorem pair_yields {pair : String × Value} (short : (textBytes pair.1).length ≤ MAX_KEY_BYTES)
    (layers : ∀ kind elements, pair.2 = .Scalars kind elements → isPerLayer pair.1 = true →
      elements.length ≤ MAX_LAYER_ARRAY) : Yields file self.pair (pairBytes pair) (self.keep pair) := by
  have key_is : Yields file (textAt MAX_KEY_BYTES) (text pair.1) _ := textAt_yields MAX_KEY_BYTES pair.1
  rw [if_pos short] at key_is
  exact key_is.bind ((u32At_yields (value_tag_small pair.2)).bind (value_yields self pair.1 pair.2 layers))

/-- A per-layer array that is read at all is read element by element. -/
theorem layers_gives {kind : Kind} {elements : List kind.Bits} (layered : isPerLayer key = true) :
    Gives file (self.array key) (Value.Scalars kind elements).bytes (self.keep (key,.Scalars kind elements)) := by
  by_cases few : elements.length ≤ MAX_LAYER_ARRAY
  · exact (layers_yields self key layered few).gives
  · refine Gives.of_sized fun sized => ?_
    have many : elements.length ≤ (elements.flatMap kind.bytes).length := length_le_flatMap (kind_bytes_filled kind)
    simp only [Value.bytes,List.length_append,toLeBytes_length] at sized
    refine (u32At_yields (tag_small kind)).gives.bind ((u64At_yields (by omega)).gives.bind ?_)
    have here : (isPerLayer key && kind.tag ≠ STRING && kind.tag ≠ ARRAY) = true := by
      simp [layered,tag_plain kind]
    rw [if_pos here,if_pos (Nat.not_le.mp few)]
    exact Gives.stops _ _ _ _

/-- So is a value, and a pair. -/
theorem value_gives (value : Value) : Gives file (self.value key value.tag) value.bytes (self.keep (key,value)) := by
  by_cases layers : ∀ kind elements, value = .Scalars kind elements → isPerLayer key = true → elements.length ≤ MAX_LAYER_ARRAY
  · exact (value_yields self key value layers).gives
  · push Not at layers
    obtain ⟨kind,elements,rfl,layered,_⟩ := layers
    exact layers_gives self key layered

theorem pair_gives (pair : String × Value) : Gives file self.pair (pairBytes pair) (self.keep pair) := by
  have key_is : Yields file (textAt MAX_KEY_BYTES) (text pair.1) _ := textAt_yields MAX_KEY_BYTES pair.1
  refine key_is.gives.bind ?_
  by_cases short : (textBytes pair.1).length ≤ MAX_KEY_BYTES
  · rw [if_pos short]
    exact (u32At_yields (value_tag_small pair.2)).gives.bind (value_gives self pair.1 pair.2)
  · rw [if_neg short]
    exact Gives.throws _ _ _

end Pairs

theorem pairBytes_filled (pair : String × Value) : 1 ≤ (pairBytes pair).length := by
  have key := text_filled pair.1
  rw [pairBytes,List.length_append]
  omega

/-- What is written is read as its pairs, if it is read at all. -/
theorem body_gives (version tensors : ℕ) (pairs : List (String × Value)) (file : File) (self : Metadata) :
    Gives file self.body (head version tensors pairs) (pairs.foldl Metadata.keep self) := by
  refine Gives.of_sized fun sized => ?_
  have many : pairs.length ≤ (pairs.flatMap pairBytes).length := length_le_flatMap pairBytes_filled
  simp only [head,List.length_append,toLeBytes_length] at sized
  have magic : Yields file (bytesAt 4) MAGIC MAGIC := bytesAt_yields (by decide)
  refine magic.gives.bind ?_
  rw [if_neg (by simp)]
  have version_is : Yields file u32At (toLeBytes 4 version) _ := (bytesAt_yields (toLeBytes_length 4 version)).map fromLeBytes
  refine version_is.gives.bind ?_
  split_ifs
  swap
  · exact Gives.stops _ _ _ _
  have tensors_is : Yields file u64At (toLeBytes 8 tensors) _ := (bytesAt_yields (toLeBytes_length 8 tensors)).map fromLeBytes
  refine tensors_is.gives.bind ((u64At_yields (by omega)).gives.bind ?_)
  split_ifs
  · exact Gives.stops _ _ _ _
  · exact times_gives (fun self pair _ => pair_gives self pair) self

/-- A file that is read and begins as the format specifies has said what its
    pairs say. -/
theorem ofFile_accepted {version tensors : ℕ} {pairs : List (String × Value)} {file : File} {rest : List UInt8}
    (is : file.bytes = head version tensors pairs ++ rest) {metadata : Metadata} (accepted : Metadata.ofFile file = .ok metadata) :
    metadata = pairs.foldl Metadata.keep .empty := by
  obtain ⟨after,reads⟩ := ofFile_eq_ok.mp accepted
  exact (body_gives version tensors pairs file .empty [] rest is metadata after (fill_eq_ok.mp reads).1).1

/-- The position behind the pairs is one in the file. -/
theorem ended_yields {file : File} {α : Type} (value : α) : Yields file (do
    let position := (← get).position
    if position > file.bytes.length then throw ⟨"ends before its metadata does"⟩
    return value : Reads Fault α) [] value := by
  intro before rest is
  have inside : ¬ before.length > file.bytes.length := by
    rw [is,List.length_append]
    omega
  show (if before.length > file.bytes.length then _ else _ : Reads Fault α) ⟨file,before.length⟩ = _
  rw [if_neg inside]
  rfl

/-- A file that begins as the format specifies is read to the end of its pairs. -/
theorem ofFile_written {version tensors : ℕ} (known : version = 2 ∨ version = 3) (counted : tensors < 2 ^ 64)
    {pairs : List (String × Value)} (fit : Fit pairs) {file : File} {rest : List UInt8}
    (is : file.bytes = head version tensors pairs ++ rest) :
    Metadata.ofFile file = .ok (pairs.foldl Metadata.keep .empty) := by
  have every : Yields file (times Metadata.pair pairs.length .empty) (pairs.flatMap pairBytes) (pairs.foldl Metadata.keep .empty) :=
    times_yields (fun self pair inside => pair_yields self (fit.short pair inside) (fun kind elements is layered =>
      (fit.layers pair.1 kind elements (is ▸ inside) layered).1)) .empty
  have few : pairs.length < 2 ^ 64 := Nat.lt_of_le_of_lt fit.few (by decide)
  have magic : Yields file (bytesAt 4) MAGIC MAGIC := bytesAt_yields (by decide)
  have reads : Yields file (Metadata.empty.fill file.bytes.length) (head version tensors pairs)
      (pairs.foldl Metadata.keep .empty) := by
    refine magic.bind ?_
    rw [if_neg (by simp)]
    refine (u32At_yields (by omega)).bind ?_
    rw [if_neg (by omega)]
    refine (u64At_yields counted).bind ((u64At_yields few).bind ?_)
    rw [if_neg (Nat.not_lt.mpr fit.few)]
    rw [← List.append_nil (pairs.flatMap pairBytes)]
    exact every.bind (ended_yields _)
  have run := reads [] rest is
  rw [Metadata.ofFile]
  show Except.map Prod.fst (Metadata.empty.fill file.bytes.length ⟨file,([] : List UInt8).length⟩) = _
  rw [run]
  rfl

/-- So has one that is read, when it is told only that it is. -/
theorem ofFile_is {version tensors : ℕ} {pairs : List (String × Value)} {file : File} {rest : List UInt8}
    (is : file.bytes = head version tensors pairs ++ rest) (read : (Metadata.ofFile file).toOption.isSome) :
    Metadata.ofFile file = .ok (pairs.foldl Metadata.keep .empty) := by
  cases reads : Metadata.ofFile file with
  | error fault =>
    rw [reads] at read
    cases read
  | ok metadata => rw [ofFile_accepted is reads]

/-! ## What is kept of the pairs -/

section Kept
variable (self : Metadata)

theorem keepLayer_foldl (numbers : List ℕ) :
    (numbers.map some).foldl keepLayer (none,[]) = (numbers.max?,numbers) := by
  induction numbers using List.reverseRecOn with
  | nil => rfl
  | append_singleton numbers n ih =>
    rw [List.map_append,List.foldl_append,ih]
    show (max numbers.max? (some n),numbers ++ [n]) = _
    cases numbers with
    | nil => rfl
    | cons first numbers =>
      rw [List.cons_append,List.max?_cons',List.max?_cons',List.foldl_append]
      rfl

/-- What a per-layer array of numbers leaves. -/
theorem keep_layers {key : String} (layered : isPerLayer key = true) {kind : Kind} {elements : List kind.Bits} {numbers : List ℕ}
    (are : kind.Numbers elements numbers) :
    self.keep (key,.Scalars kind elements) = self.insertLayers key (numbers.max?,numbers) := by
  have folded : elements.foldl (fun kept bits => keepLayer kept (kind.number bits)) (none,[]) = (numbers.max?,numbers) := by
    rw [← List.foldl_map (f := kind.number) (g := keepLayer),are,keepLayer_foldl]
  show (if isPerLayer key then self.insertLayers key _ else self) = _
  rw [if_pos layered,folded]

theorem insertLayers_other {key other : String} (apart : other ≠ key) (kept : Option ℕ × List ℕ) :
    (self.insertLayers key kept).numbers other = self.numbers other ∧
      (self.insertLayers key kept).layers other = self.layers other := by
  constructor
  · unfold Metadata.insertLayers
    cases kept.1 <;> simp [apart]
  · unfold Metadata.insertLayers
    dsimp only
    split_ifs <;> simp [apart]

/-- A pair says nothing of another key. -/
theorem keep_other (pair : String × Value) (key : String) (apart : key ≠ pair.1) :
    (self.keep pair).numbers key = self.numbers key ∧ (self.keep pair).layers key = self.layers key := by
  obtain ⟨own,value⟩ := pair
  cases value with
  | Scalar kind bits =>
    unfold Metadata.keep
    dsimp only
    cases (kind.number bits).filter fun _ => !ofTokenizer own with
    | none => exact ⟨rfl,rfl⟩
    | some number => exact ⟨Function.update_of_ne apart _ _,rfl⟩
  | Text string =>
    unfold Metadata.keep
    dsimp only
    split_ifs <;> exact ⟨rfl,rfl⟩
  | Scalars kind elements =>
    unfold Metadata.keep
    dsimp only
    split_ifs
    · exact insertLayers_other self apart _
    · exact ⟨rfl,rfl⟩
  | Texts elements => exact ⟨rfl,rfl⟩

/-- The number a pair says is kept at its key. -/
theorem keep_counts {key : String} {value : Value} (layers : ∀ kind elements, value = .Scalars kind elements →
    isPerLayer key = true → ∃ numbers, kind.Numbers elements numbers) (fresh : self.numbers key = none) (n : ℕ) :
    (self.keep (key,value)).numbers key = some n ↔ value.Counts key n := by
  cases value with
  | Scalar kind bits =>
    have both : Value.Counts key (.Scalar kind bits) n ↔ ofTokenizer key = false ∧ kind.number bits = some n := by
      constructor
      · rintro ⟨plain,is⟩
        exact ⟨plain,is⟩
      · rintro ⟨plain,is⟩
        exact .scalar plain is
    rw [both]
    unfold Metadata.keep
    dsimp only
    cases plain : ofTokenizer key <;> cases is : kind.number bits <;> simp [fresh,Option.filter]
  | Text string =>
    have unsaid : ¬ Value.Counts key (.Text string) n := by rintro ⟨⟩
    unfold Metadata.keep
    dsimp only
    split_ifs <;> simp [fresh,unsaid]
  | Scalars kind elements =>
    cases layered : isPerLayer key with
    | true =>
      obtain ⟨numbers,are⟩ := layers kind elements rfl layered
      rw [keep_layers self layered are]
      constructor
      · intro is
        refine .largest layered are ?_
        unfold Metadata.insertLayers at is
        cases largest : numbers.max? with
        | none => simp [largest,fresh] at is
        | some largest => simpa [largest] using is
      · intro told
        cases told with
        | largest _ are' is =>
          have same : numbers = _ := List.map_injective_iff.mpr (Option.some_injective ℕ) (are.symm.trans are')
          subst same
          simp [Metadata.insertLayers,is]
    | false =>
      have unsaid : ¬ Value.Counts key (.Scalars kind elements) n := by
        intro told
        cases told with
        | largest layered' => simp [layered] at layered'
      simp [Metadata.keep,layered,fresh,unsaid]
  | Texts elements =>
    have unsaid : ¬ Value.Counts key (.Texts elements) n := by rintro ⟨⟩
    simp [Metadata.keep,fresh,unsaid]

/-- So is what it says of each layer. -/
theorem keep_says_layers {key : String} {value : Value} (layers : ∀ kind elements, value = .Scalars kind elements →
    isPerLayer key = true → ∃ numbers, kind.Numbers elements numbers) (fresh : self.layers key = none) (numbers : List ℕ) :
    (self.keep (key,value)).layers key = some numbers ↔ value.Layers key numbers := by
  cases value with
  | Scalar kind bits =>
    have unsaid : ¬ Value.Layers key (.Scalar kind bits) numbers := by rintro ⟨⟩
    unfold Metadata.keep
    dsimp only
    cases (kind.number bits).filter fun _ => !ofTokenizer key <;> simp [fresh,unsaid]
  | Text string =>
    have unsaid : ¬ Value.Layers key (.Text string) numbers := by rintro ⟨⟩
    unfold Metadata.keep
    dsimp only
    split_ifs <;> simp [fresh,unsaid]
  | Scalars kind elements =>
    cases layered : isPerLayer key with
    | true =>
      obtain ⟨each,are⟩ := layers kind elements rfl layered
      rw [keep_layers self layered are]
      unfold Metadata.insertLayers
      dsimp only
      constructor
      · intro is
        cases none_or : each with
        | nil => simp [none_or,fresh] at is
        | cons first more =>
          have same : each = numbers := by simpa [none_or] using is
          rw [← same]
          exact .each layered are (by simp [none_or])
      · intro told
        cases told with
        | each _ are' some_layer =>
          have same : each = numbers := List.map_injective_iff.mpr (Option.some_injective ℕ) (are.symm.trans are')
          rw [same]
          simp [some_layer]
    | false =>
      have unsaid : ¬ Value.Layers key (.Scalars kind elements) numbers := by
        intro told
        cases told with
        | each layered' => simp [layered] at layered'
      simp [Metadata.keep,layered,fresh,unsaid]
  | Texts elements =>
    have unsaid : ¬ Value.Layers key (.Texts elements) numbers := by rintro ⟨⟩
    simp [Metadata.keep,fresh,unsaid]

/-- The architecture, as a table with one key. -/
def Metadata.named (key : String) : Option String := if key = "general.architecture" then self.architecture else none

theorem empty_named (key : String) : Metadata.empty.named key = none := ite_self none

theorem keep_named_other (pair : String × Value) (key : String) (apart : key ≠ pair.1) :
    (self.keep pair).named key = self.named key := by
  obtain ⟨own,value⟩ := pair
  unfold Metadata.named
  by_cases is : key = "general.architecture"
  · subst is
    rw [if_pos rfl,if_pos rfl]
    unfold Metadata.keep
    cases value with
    | Scalar kind bits =>
      dsimp only
      cases (kind.number bits).filter fun _ => !ofTokenizer own <;> rfl
    | Text string => exact congrArg Metadata.architecture (if_neg (Ne.symm apart))
    | Scalars kind elements =>
      dsimp only
      split_ifs <;> rfl
    | Texts elements => rfl
  · rw [if_neg is,if_neg is]

theorem keep_names {key : String} {value : Value} (fresh : self.named key = none) (name : String) :
    (self.keep (key,value)).named key = some name ↔ value.Names key name := by
  unfold Metadata.named at fresh ⊢
  by_cases is : key = "general.architecture"
  · rw [if_pos is] at fresh ⊢
    unfold Metadata.keep
    cases value with
    | Scalar kind bits =>
      have unsaid : ¬ Value.Names key (.Scalar kind bits) name := by rintro ⟨⟩
      dsimp only
      cases (kind.number bits).filter fun _ => !ofTokenizer key <;> simp [fresh,unsaid]
    | Text string =>
      dsimp only
      rw [if_pos is]
      dsimp only
      constructor
      · intro some_name
        split_ifs at some_name with short
        cases some_name
        exact .text is short
      · rintro ⟨_,short⟩
        rw [if_pos short]
    | Scalars kind elements =>
      have unsaid : ¬ Value.Names key (.Scalars kind elements) name := by rintro ⟨⟩
      dsimp only
      split_ifs <;> simp [Metadata.insertLayers,fresh,unsaid]
    | Texts elements =>
      have unsaid : ¬ Value.Names key (.Texts elements) name := by rintro ⟨⟩
      simp [fresh,unsaid]
  · rw [if_neg is]
    constructor
    · intro some_name
      cases some_name
    · rintro ⟨named,_⟩
      exact absurd named is

end Kept

/-! ## Decoding undoes encoding -/

section ReadBack
variable {version tensors : ℕ} (known : version = 2 ∨ version = 3) (counted : tensors < 2 ^ 64)
  {pairs : List (String × Value)} (fit : Fit pairs) {file : File} {rest : List UInt8}
  (is : file.bytes = head version tensors pairs ++ rest)
include known counted fit is

/-- A file written as the format specifies, whatever follows, is read, and what
    is kept of it is what its pairs say: the architecture, the numbers and the
    layers, and nothing else. -/
theorem read_back : ∃ metadata, Metadata.ofFile file = .ok metadata ∧
    (∀ name, metadata.architecture = some name ↔
      ("general.architecture",Value.Text name) ∈ pairs ∧ (textBytes name).length ≤ MAX_KEPT_TEXT_BYTES) ∧
    (∀ key n, metadata.numbers key = some n ↔ ∃ value, (key,value) ∈ pairs ∧ value.Counts key n) ∧
    (∀ key numbers, metadata.layers key = some numbers ↔ ∃ value, (key,value) ∈ pairs ∧ value.Layers key numbers) := by
  have layers (pair) (inside : pair ∈ pairs) (kind elements) (is : pair.2 = Value.Scalars kind elements)
      (layered : isPerLayer pair.1 = true) : ∃ numbers, kind.Numbers elements numbers :=
    (fit.layers pair.1 kind elements (is ▸ inside) layered).2
  refine ⟨_,ofFile_written known counted fit is,fun name => ?_,fun key n => ?_,fun key numbers => ?_⟩
  · have named : (pairs.foldl Metadata.keep .empty).named "general.architecture" = some name ↔ _ :=
      filled_iff keep_named_other (fun self _ _ fresh name => keep_names self fresh name) empty_named
        fit.distinct "general.architecture" name
    rw [Metadata.named,if_pos rfl] at named
    rw [named]
    constructor
    · rintro ⟨_,inside,⟨_,short⟩⟩
      exact ⟨inside,short⟩
    · rintro ⟨inside,short⟩
      exact ⟨_,inside,.text rfl short⟩
  · exact filled_iff (fun self pair key apart => (keep_other self pair key apart).1)
      (fun self pair inside fresh n => keep_counts self (layers pair inside) fresh n) (fun _ => rfl) fit.distinct key n
  · exact filled_iff (fun self pair key apart => (keep_other self pair key apart).2)
      (fun self pair inside fresh n => keep_says_layers self (layers pair inside) fresh n) (fun _ => rfl) fit.distinct key numbers

end ReadBack

/-- A file of one layer count, one array over the layers, and a stepped-over
    vocabulary, with tensors behind. -/
def writtenM : List (String × Value) :=
  [("general.architecture",.Text "qwen3"),("tokenizer.ggml.tokens",.Texts ["a","b"]),("qwen3.block_count",.Scalar .UINT32 2),
    ("qwen3.attention.head_count_kv",.Scalars .UINT16 [8,2])]

theorem writtenM_fit : Fit writtenM where
  few := by decide
  distinct := by decide
  short := by decide +kernel
  layers := by
    intro key kind elements inside layered
    simp only [writtenM,List.mem_cons,Prod.mk.injEq,reduceCtorEq,and_false,false_or,List.not_mem_nil,or_false] at inside
    obtain ⟨rfl,is⟩ := inside
    cases is
    exact ⟨by decide,[8,2],rfl⟩

def fileM : File := ⟨head 3 1 writtenM ++ [1,2,3],by decide +kernel⟩

theorem writtenM_read : ∃ metadata, Metadata.ofFile fileM = .ok metadata ∧ metadata.ofModel "block_count" = some 2 := by
  obtain ⟨metadata,is,named,counted,_⟩ := read_back (.inr rfl) (by decide : 1 < 2 ^ 64) writtenM_fit
    (rfl : fileM.bytes = head 3 1 writtenM ++ [1,2,3])
  refine ⟨metadata,is,?_⟩
  have architecture : metadata.architecture = some "qwen3" := (named "qwen3").mpr ⟨by simp [writtenM],by decide⟩
  rw [Metadata.ofModel,architecture]
  have inside : ("qwen3.block_count",Value.Scalar .UINT32 2) ∈ writtenM := by simp [writtenM]
  exact (counted "qwen3.block_count" 2).mpr ⟨_,inside,.scalar (by decide) rfl⟩

end Maestro.Gguf
