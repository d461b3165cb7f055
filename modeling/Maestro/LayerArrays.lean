import Maestro.Estimate
import Maestro.GgufWritten

/-!
# The arrays of a model's layers

A per-layer array is kept without the elements that are no numbers, and the
estimate takes what is kept by the layer's index.
-/
namespace Maestro.Gguf
open Reading

/-! ## The array that is kept -/

/-- The numbers among the elements of an array. -/
def Kind.numbers (kind : Kind) (elements : List kind.Bits) : List ℕ := elements.filterMap kind.number

/-- What an element is taken for, where a stand-in takes the place of no number. -/
def Kind.valueOr (kind : Kind) (standIn : ℕ) (bits : kind.Bits) : ℕ := (kind.number bits).getD standIn

/-- What a pair leaves of each layer under its key. -/
def Value.left (key : String) : Value → List ℕ
  | .Scalars kind elements => if isPerLayer key then kind.numbers elements else []
  | _ => []

/-- A key under the name of an architecture. -/
def keyUnder (name suffix : String) : String := s!"{name}.{suffix}"

/-- The array whose slice is found under a key: the last one there that leaves
    any. -/
def Stands (pairs : List (String × Value)) (key : String) (kind : Kind) (elements : List kind.Bits) : Prop :=
  ∃ before after, pairs = before ++ (key,.Scalars kind elements) :: after ∧ isPerLayer key = true ∧
    kind.numbers elements ≠ [] ∧ ∀ value, (key,value) ∈ after → value.left key = []

theorem keepLayer_left (kind : Kind) (elements : List kind.Bits) (kept : Option ℕ × List ℕ) :
    (elements.foldl (fun kept bits => keepLayer kept (kind.number bits)) kept).2 = kept.2 ++ kind.numbers elements := by
  induction elements generalizing kept with
  | nil => simp [Kind.numbers]
  | cons bits elements ih =>
    rw [List.foldl_cons,ih]
    cases is : kind.number bits with
    | none => simp [keepLayer,Kind.numbers,is]
    | some number => simp [keepLayer,Kind.numbers,is]

section Keep
variable (self : Metadata) {key : String}

/-- A per-layer array leaves its numbers, if it has any. -/
theorem keep_scalars {kind : Kind} {elements : List kind.Bits} (layered : isPerLayer key = true) :
    (self.keep (key,.Scalars kind elements)).layers =
      if (kind.numbers elements).isEmpty then self.layers else Function.update self.layers key (some (kind.numbers elements)) := by
  have kept := keepLayer_left kind elements (none,[])
  rw [List.nil_append] at kept
  unfold Metadata.keep
  dsimp only
  rw [if_pos layered]
  unfold Metadata.insertLayers
  dsimp only
  rw [kept]

theorem keep_idle {value : Value} (idle : value.left key = []) : (self.keep (key,value)).layers = self.layers := by
  cases value with
  | Scalar kind bits =>
    unfold Metadata.keep
    dsimp only
    split <;> rfl
  | Text string =>
    unfold Metadata.keep
    dsimp only
    split_ifs <;> rfl
  | Texts elements => rfl
  | Scalars kind elements =>
    by_cases layered : isPerLayer key = true
    · have none_left : kind.numbers elements = [] := by rwa [Value.left,if_pos layered] at idle
      rw [keep_scalars self layered,none_left]
      rfl
    · exact congrArg Metadata.layers (if_neg layered)

theorem keep_leaves {value : Value} (some_left : value.left key ≠ []) :
    (self.keep (key,value)).layers = Function.update self.layers key (some (value.left key)) := by
  cases value with
  | Scalars kind elements =>
    by_cases layered : isPerLayer key = true
    · have left : (Value.Scalars kind elements).left key = kind.numbers elements := if_pos layered
      rw [left] at some_left ⊢
      rw [keep_scalars self layered,if_neg (by rw [List.isEmpty_iff]; exact some_left)]
    · exact absurd (if_neg layered) some_left
  | Scalar | Text | Texts => exact absurd rfl some_left

end Keep

theorem foldl_left_none {pairs : List (String × Value)} {key : String} (nothing : ∀ value, (key,value) ∈ pairs → value.left key = [])
    (self : Metadata) : (pairs.foldl Metadata.keep self).layers key = self.layers key := by
  induction pairs generalizing self with
  | nil => rfl
  | cons pair pairs ih =>
    obtain ⟨own,value⟩ := pair
    rw [List.foldl_cons,ih fun value inside => nothing value (List.mem_cons_of_mem _ inside)]
    by_cases idle : value.left own = []
    · rw [keep_idle self idle]
    · rw [keep_leaves self idle]
      refine Function.update_of_ne ?_ _ _
      rintro rfl
      exact idle (nothing value List.mem_cons_self)

/-- The slice of the array that stands is the one that is kept. -/
theorem Stands.kept {pairs : List (String × Value)} {key : String} {kind : Kind} {elements : List kind.Bits}
    (stands : Stands pairs key kind elements) : (pairs.foldl Metadata.keep .empty).layers key = some (kind.numbers elements) := by
  obtain ⟨before,after,rfl,layered,some_left,nothing⟩ := stands
  have left : (Value.Scalars kind elements).left key = kind.numbers elements := if_pos layered
  rw [List.foldl_append,List.foldl_cons,foldl_left_none nothing,keep_leaves _ (left ▸ some_left),Function.update_self,left]

/-- What is kept of each layer is the slice of some array. -/
theorem stands_of_kept {pairs : List (String × Value)} {key : String} {slice : List ℕ}
    (kept : (pairs.foldl Metadata.keep .empty).layers key = some slice) :
    ∃ kind elements, Stands pairs key kind elements ∧ slice = kind.numbers elements := by
  induction pairs using List.reverseRecOn with
  | nil => cases kept
  | append_singleton pairs pair ih =>
    obtain ⟨last,latest⟩ := pair
    rw [List.foldl_append,List.foldl_cons,List.foldl_nil] at kept
    -- The array that stood before stands still, where the last pair leaves nothing at its key.
    have still (before : (pairs.foldl Metadata.keep .empty).layers key = some slice) (idle : last = key → latest.left key = []) :
        ∃ kind elements, Stands (pairs ++ [(last,latest)]) key kind elements ∧ slice = kind.numbers elements := by
      obtain ⟨kind,elements,⟨front,back,rfl,layered,some_left,nothing⟩,is⟩ := ih before
      refine ⟨kind,elements,⟨front,back ++ [(last,latest)],by simp,layered,some_left,?_⟩,is⟩
      intro value inside
      rcases List.mem_append.mp inside with earlier | here
      · exact nothing value earlier
      · obtain ⟨rfl,rfl⟩ := Prod.mk.inj (List.mem_singleton.mp here)
        exact idle rfl
    by_cases idle : latest.left last = []
    · rw [keep_idle _ idle] at kept
      exact still kept fun same => same ▸ idle
    rw [keep_leaves _ idle] at kept
    by_cases same : last = key
    · subst same
      rw [Function.update_self] at kept
      cases kept
      cases latest with
      | Scalars kind elements =>
        by_cases layered : isPerLayer last = true
        · have left : (Value.Scalars kind elements).left last = kind.numbers elements := if_pos layered
          rw [left] at idle ⊢
          exact ⟨kind,elements,⟨pairs,[],rfl,layered,idle,by simp⟩,rfl⟩
        · exact absurd (if_neg layered) idle
      | Scalar | Text | Texts => exact absurd rfl idle
    · rw [Function.update_of_ne (Ne.symm same)] at kept
      exact still kept fun is => absurd is same

/-- An array is kept whole exactly where each element is a number. -/
theorem length_numbers_iff {kind : Kind} {elements : List kind.Bits} :
    (kind.numbers elements).length = elements.length ↔ ∀ bits ∈ elements, (kind.number bits).isSome := by
  have fewer : (elements.filterMap kind.number).length < elements.length ↔ _ := List.length_filterMap_lt_length_iff_exists
  have bound := List.length_filterMap_le kind.number elements
  constructor
  · intro whole bits inside
    by_contra missing
    rw [Option.not_isSome_iff_eq_none] at missing
    have short := fewer.mpr ⟨bits,inside,missing⟩
    unfold Kind.numbers at whole
    omega
  · intro every
    by_contra short
    have less : (kind.numbers elements).length < elements.length := Nat.lt_of_le_of_ne bound short
    obtain ⟨bits,inside,missing⟩ := fewer.mp less
    have is := every bits inside
    rw [missing] at is
    cases is

theorem numbers_eq_map {kind : Kind} {elements : List kind.Bits} (every : ∀ bits ∈ elements, (kind.number bits).isSome)
    (standIn : ℕ) : kind.numbers elements = elements.map (kind.valueOr standIn) := by
  rw [Kind.numbers,← List.filterMap_eq_map]
  refine List.filterMap_congr fun bits inside => ?_
  obtain ⟨number,is⟩ := Option.isSome_iff_exists.mp (every bits inside)
  simp [Kind.valueOr,is]

end Maestro.Gguf

namespace Maestro.Estimate
open Gguf

/-! ## The layers by their index -/

/-- The slice of each array goes by the index of the layer, and so do the heads
    and the mark that the estimate charges a layer by. -/
structure KeepsLayers (pairs : List (String × Value)) (metadata : Metadata) (standIn : ℕ) : Prop where
  slices : ∀ (name suffix : String) kind elements slice, metadata.architecture = some name →
    Stands pairs (keyUnder name suffix) kind elements → metadata.perLayer suffix = some slice →
      slice.length = elements.length ∧ ∀ layer : ℕ, slice[layer]? = elements[layer]?.map (kind.valueOr standIn)
  charged : ∀ name kind marks kind' counts pattern, metadata.architecture = some name →
    Stands pairs (keyUnder name "attention.sliding_window_pattern") kind marks → Stands pairs (keyUnder name "attention.head_count_kv") kind' counts →
      metadata.perLayer "attention.sliding_window_pattern" = some pattern →
        ∀ (layer : ℕ) mark count, marks[layer]? = some mark → counts[layer]? = some count →
          ∀ context shape window, ∃ slides, pattern[layer]? = some slides ∧
            (layerAt metadata context shape window slides layer).heads = kind'.valueOr standIn count ∧
            (layerAt metadata context shape window slides layer).span =
              if kind.valueOr standIn mark = 0 then context else min context window

section
variable {pairs : List (String × Value)} {metadata : Metadata} (is : metadata = pairs.foldl Metadata.keep .empty)
include is

/-- The slice of an array that stands under the name of the architecture. -/
theorem perLayer_stands {name suffix : String} {kind : Kind} {elements : List kind.Bits} (named : metadata.architecture = some name)
    (stands : Stands pairs (keyUnder name suffix) kind elements) : metadata.perLayer suffix = some (kind.numbers elements) := by
  unfold Metadata.perLayer
  rw [named,Option.bind_some,is]
  exact stands.kept

theorem keepsLayers_of_numbers (every : ∀ (name suffix : String) kind elements, metadata.architecture = some name →
    Stands pairs (keyUnder name suffix) kind elements → ∀ bits ∈ elements, (kind.number bits).isSome) (standIn : ℕ) :
    KeepsLayers pairs metadata standIn := by
  have slice_is {name suffix : String} {kind : Kind} {elements : List kind.Bits} (named : metadata.architecture = some name)
      (stands : Stands pairs (keyUnder name suffix) kind elements) :
      metadata.perLayer suffix = some (elements.map (kind.valueOr standIn)) := by
    rw [perLayer_stands is named stands,numbers_eq_map (every name suffix kind elements named stands)]
  constructor
  · intro name suffix kind elements slice named stands told
    rw [slice_is named stands] at told
    cases told
    exact ⟨List.length_map _,fun layer => List.getElem?_map⟩
  · intro name kind marks kind' counts pattern named marks_stand counts_stand told layer mark count marked counted context shape window
    have pattern_is : metadata.perLayer "attention.sliding_window_pattern" = some (marks.map (kind.valueOr standIn)) :=
      slice_is named marks_stand
    have heads_are : metadata.perLayer "attention.head_count_kv" = some (counts.map (kind'.valueOr standIn)) :=
      slice_is named counts_stand
    rw [pattern_is] at told
    cases told
    refine ⟨kind.valueOr standIn mark,by rw [List.getElem?_map,marked]; rfl,?_,?_⟩
    · unfold layerAt
      rw [heads_are,Option.bind_some,List.getElem?_map,counted]
      split_ifs <;> rfl
    · unfold layerAt
      split_ifs <;> rfl

theorem numbers_of_keepsLayers {standIn : ℕ} (keeps : KeepsLayers pairs metadata standIn) {name suffix : String} {kind : Kind}
    {elements : List kind.Bits} (named : metadata.architecture = some name) (stands : Stands pairs (keyUnder name suffix) kind elements) :
    ∀ bits ∈ elements, (kind.number bits).isSome :=
  length_numbers_iff.mp (keeps.slices name suffix kind elements _ named stands (perLayer_stands is named stands)).1

end

/-- The layers keep their places exactly where every element of each array that
    stands under the name of the architecture is a number or a flag. -/
theorem keeps_layers_iff {version tensors : ℕ} {pairs : List (String × Value)} {file : Reading.File} {rest : List UInt8}
    (is : file.bytes = head version tensors pairs ++ rest) {metadata : Metadata} (accepted : Metadata.ofFile file = .ok metadata) :
    (∃ standIn, KeepsLayers pairs metadata standIn) ↔ ∀ (name suffix : String) kind elements, metadata.architecture = some name →
      Stands pairs (keyUnder name suffix) kind elements → ∀ bits ∈ elements, (kind.number bits).isSome := by
  have said := ofFile_accepted is accepted
  constructor
  · rintro ⟨standIn,keeps⟩ name suffix kind elements named stands
    exact numbers_of_keepsLayers said keeps named stands
  · intro every
    exact ⟨0,keepsLayers_of_numbers said every 0⟩

theorem written_layers_kept : ∃ metadata, Metadata.ofFile fileM = .ok metadata ∧ ∃ standIn, KeepsLayers writtenM metadata standIn := by
  have accepted := ofFile_written (.inr rfl) (by decide : 1 < 2 ^ 64) writtenM_fit (rfl : fileM.bytes = head 3 1 writtenM ++ [1,2,3])
  refine ⟨_,accepted,(keeps_layers_iff rfl accepted).mpr ?_⟩
  intro name suffix kind elements _ ⟨before,after,is,_⟩ bits inside
  have member : (keyUnder name suffix,Value.Scalars kind elements) ∈ writtenM := by
    rw [is]
    exact List.mem_append_right _ List.mem_cons_self
  simp only [writtenM,List.mem_cons,Prod.mk.injEq,reduceCtorEq,and_false,false_or,List.not_mem_nil,or_false] at member
  obtain ⟨_,array⟩ := member
  cases array
  rfl

/-- Three layers, the second with a head count that is no count. -/
def negativeM : List (String × Value) :=
  [("general.architecture",.Text "gemma3"),("gemma3.attention.head_count_kv",.Scalars .INT32 [8,0xFFFFFFFF,2])]

def fileN : Reading.File := ⟨head 3 0 negativeM,by decide +kernel⟩

/-- The third layer's heads are kept at the second place. -/
theorem negative_layer_dropped : ∃ metadata, Metadata.ofFile fileN = .ok metadata ∧
    ¬ ∃ standIn, KeepsLayers negativeM metadata standIn := by
  have is : fileN.bytes = head 3 0 negativeM ++ [] := (List.append_nil _).symm
  refine ⟨_,ofFile_is is (by decide +kernel),?_⟩
  rintro ⟨standIn,keeps⟩
  have stands : Stands negativeM (keyUnder "gemma3" "attention.head_count_kv") .INT32 [8,0xFFFFFFFF,2] :=
    ⟨[("general.architecture",.Text "gemma3")],[],rfl,by decide,by decide,by simp⟩
  have dropped := numbers_of_keepsLayers rfl keeps rfl stands 0xFFFFFFFF (by decide)
  exact absurd dropped (by decide)

end Maestro.Estimate
