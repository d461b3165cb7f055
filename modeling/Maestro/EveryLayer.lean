import Maestro.EstimateExact

/-!
# Whether every layer is charged

A windowed model is charged by the marks of its pattern, however many layers it
has. What that comes to is weighed against the least each layer costs: its
heads over the window.
-/
namespace Maestro.Estimate
open Gguf (Metadata head ofFile_is)

section Costs
variable (metadata : Metadata) (context keys values : ℕ) (of : Shape) (window : ℕ)

/-- The key-value heads of a layer: its own, or else the model's. -/
def headsAt (layer : ℕ) : ℕ := ((metadata.perLayer "attention.head_count_kv").bind fun counts => counts[layer]?).getD of.kvHeads

/-- The key and value widths of a layer that slides. -/
def windowWidth : ℕ :=
  let swaKeys := (metadata.ofModel "attention.key_length_swa").getD of.keyLength
  let swaValues := (metadata.ofModel "attention.value_length_swa").getD swaKeys
  swaKeys * keys + swaValues * values

/-- What a layer costs over the window. -/
def windowCost (layer : ℕ) : ℕ := min context window * headsAt metadata of layer * windowWidth metadata keys values of

/-- What a layer costs over the whole context. -/
def fullCost (layer : ℕ) : ℕ := context * headsAt metadata of layer * (of.keyLength * keys + of.valueLength * values)

/-- What a mark charges a layer. -/
def charge (mark : ℕ × ℕ) : ℕ :=
  if mark.1 = 0 then fullCost metadata context keys values of mark.2 else windowCost metadata context keys values of window mark.2

/-- What every one of so many layers costs at least. -/
def owed (layers : ℕ) : ℕ := ((List.range layers).map (windowCost metadata context keys values of window)).sum

variable (pattern : List ℕ) (layers : ℕ)

/-- The layers of the model that the pattern marks as full. -/
def fullLayers (marks : List (ℕ × ℕ)) : List ℕ := (marks.filter fun mark => mark.1 = 0).map Prod.snd

/-- What the layers beyond the pattern's end cost over the window. -/
def unmarked : ℕ :=
  ((List.range' pattern.length (layers - pattern.length)).map (windowCost metadata context keys values of window)).sum

/-- What the marks beyond the last layer are charged. -/
def surplus : ℕ := (((pattern.drop layers).zipIdx layers).map (charge metadata context keys values of window)).sum

/-- How much less than over the window the full layers cost over the context. -/
def narrower (marks : List (ℕ × ℕ)) : ℕ := ((fullLayers marks).map fun layer =>
  windowCost metadata context keys values of window layer - fullCost metadata context keys values of layer).sum

/-- How much more. -/
def wider (marks : List (ℕ × ℕ)) : ℕ := ((fullLayers marks).map fun layer =>
  fullCost metadata context keys values of layer - windowCost metadata context keys values of window layer).sum

end Costs

/-! ## What is charged -/

section Charged
variable (metadata : Metadata) (context keys values : ℕ) (of : Shape) (window : ℕ)

theorem cost_layerAt (slides layer : ℕ) : (layerAt metadata context of window slides layer).cost keys values =
    charge metadata context keys values of window (slides,layer) := by
  unfold layerAt charge
  dsimp only
  split_ifs <;> rfl

theorem layerCost_exact {keys values : ℕ} {layer : Layer} {cost : ℕ} (is : layerCost keys values layer = some cost) : cost = layer.cost keys values := by
  unfold layerCost at is
  obtain ⟨spanned,span_is,is⟩ := Option.bind_eq_some_iff.mp is
  obtain ⟨keyCost,key_is,is⟩ := Option.bind_eq_some_iff.mp is
  obtain ⟨valueCost,value_is,is⟩ := Option.bind_eq_some_iff.mp is
  obtain ⟨both,sum_is,is⟩ := Option.bind_eq_some_iff.mp is
  obtain ⟨_,rfl⟩ := Checked.mul_eq_some.mp span_is
  obtain ⟨_,rfl⟩ := Checked.mul_eq_some.mp key_is
  obtain ⟨_,rfl⟩ := Checked.mul_eq_some.mp value_is
  obtain ⟨_,rfl⟩ := Checked.add_eq_some.mp sum_is
  obtain ⟨_,rfl⟩ := Checked.mul_eq_some.mp is
  rfl

/-- The bytes of a windowed model are what its marks charge, in sixteenths. -/
theorem cacheBytes_windowed {metadata : Metadata} {context keys values : ℕ} {of : Shape} {window capacity : ℕ} {pattern : List ℕ} (windows_are : windows metadata = some (pattern,window))
    (shaped : shape metadata = some of) {bytes : ℕ}
    (returns : cacheBytes metadata capacity context keys values = some (some bytes)) :
    bytes = (pattern.zipIdx.map (charge metadata context keys values of window)).sum / 16 := by
  unfold windows at windows_are
  obtain ⟨marks,marks_are,windows_are⟩ := Option.bind_eq_some_iff.mp windows_are
  obtain ⟨span,span_is,both⟩ := Option.bind_eq_some_iff.mp windows_are
  cases both
  unfold cacheBytes at returns
  rw [shaped] at returns
  dsimp only at returns
  obtain ⟨assumed,assumed_is,returns⟩ := Option.bind_eq_some_iff.mp returns
  obtain ⟨_,rfl⟩ := (assumed_eq_some_iff capacity).mp assumed_is
  rw [marks_are,span_is] at returns
  obtain ⟨total,total_is,returns⟩ := Option.bind_eq_some_iff.mp returns
  cases returns
  have each (mark : ℕ × ℕ) (cost : ℕ) (is : layerCost keys values (layerAt metadata context of window mark.1 mark.2) = some cost) :
      cost = charge metadata context keys values of window mark :=
    (layerCost_exact is).trans (cost_layerAt metadata context keys values of window mark.1 mark.2)
  rw [Checked.foldlM_exact each total_is,Nat.zero_add]

/-- What marks charge falls short of the window by the narrower of the full
    layers, and exceeds it by the wider. -/
theorem charged_balance (marks : List ℕ) (start : ℕ) :
    ((marks.zipIdx start).map (charge metadata context keys values of window)).sum +
        narrower metadata context keys values of window (marks.zipIdx start) =
      ((List.range' start marks.length).map (windowCost metadata context keys values of window)).sum +
        wider metadata context keys values of window (marks.zipIdx start) := by
  induction marks generalizing start with
  | nil => rfl
  | cons slides marks ih =>
    have later := ih (start + 1)
    unfold narrower wider fullLayers at later ⊢
    rw [List.zipIdx_cons,List.length_cons,List.range'_succ]
    simp only [List.map_cons,List.sum_cons,List.filter_cons]
    by_cases full : slides = 0
    · have here : charge metadata context keys values of window (slides,start) = fullCost metadata context keys values of start :=
        if_pos full
      simp only [full,decide_true,if_true,List.map_cons,List.sum_cons] at here ⊢
      omega
    · have here : charge metadata context keys values of window (slides,start) = windowCost metadata context keys values of window start :=
        if_neg full
      simp only [full,decide_false,Bool.false_eq_true,if_false] at here ⊢
      omega

/-- The layers are those that the pattern marks and those beyond its end. -/
theorem owed_eq (pattern : List ℕ) (layers : ℕ) : owed metadata context keys values of window layers =
    ((List.range' 0 (pattern.take layers).length).map (windowCost metadata context keys values of window)).sum +
      unmarked metadata context keys values of window pattern layers := by
  unfold owed unmarked
  rw [List.range_eq_range',← List.sum_append,← List.map_append,List.length_take]
  by_cases covers : layers ≤ pattern.length
  · rw [Nat.min_eq_left covers,Nat.sub_eq_zero_of_le covers,List.range'_zero,List.append_nil]
  · have short : pattern.length ≤ layers := Nat.le_of_not_le covers
    rw [Nat.min_eq_right short]
    have joined := List.range'_append_1 (s := 0) (m := pattern.length) (n := layers - pattern.length)
    rw [Nat.zero_add,Nat.add_sub_cancel' short] at joined
    rw [joined]

/-- The marks are those of the layers and those beyond the last of them. -/
theorem charges_eq (pattern : List ℕ) (layers : ℕ) : (pattern.zipIdx.map (charge metadata context keys values of window)).sum =
    (((pattern.take layers).zipIdx).map (charge metadata context keys values of window)).sum +
      surplus metadata context keys values of window pattern layers := by
  unfold surplus
  rw [← List.sum_append,← List.map_append]
  by_cases covers : layers ≤ pattern.length
  · have whole : pattern.zipIdx = (pattern.take layers).zipIdx ++ (pattern.drop layers).zipIdx layers := by
      conv_lhs => rw [← List.take_append_drop layers pattern]
      rw [List.zipIdx_append,List.length_take,Nat.min_eq_left covers,Nat.zero_add]
    rw [whole]
  · have short : pattern.length ≤ layers := Nat.le_of_not_le covers
    rw [List.take_of_length_le short,List.drop_of_length_le short,List.zipIdx_nil,List.append_nil]

/-- What all the layers cost at least, against what the marks charge. -/
theorem owed_balance (pattern : List ℕ) (layers : ℕ) :
    owed metadata context keys values of window layers + wider metadata context keys values of window (pattern.take layers).zipIdx +
        surplus metadata context keys values of window pattern layers =
      (pattern.zipIdx.map (charge metadata context keys values of window)).sum +
        (unmarked metadata context keys values of window pattern layers +
          narrower metadata context keys values of window (pattern.take layers).zipIdx) := by
  have marked := charged_balance metadata context keys values of window (pattern.take layers) 0
  have all_layers := owed_eq metadata context keys values of window pattern layers
  have all_marks := charges_eq metadata context keys values of window pattern layers
  omega

end Charged

/-- A sixteenth is no less than another where the difference is in what the
    other drops. -/
theorem sixteenth_le_iff {a b missing extra : ℕ} (balance : a + extra = b + missing) :
    a / 16 ≤ b / 16 ↔ missing ≤ extra + a % 16 := by
  omega

/-- Where the pattern marks every layer and no full layer costs less than over
    the window, nothing is lacking. -/
theorem nothing_lacks {metadata : Metadata} {context keys values : ℕ} {pattern : List ℕ} {window : ℕ} {of : Shape} {layers : ℕ}
    (covers : layers ≤ pattern.length) (wide : ∀ layer < layers, pattern[layer]? = some 0 →
      windowCost metadata context keys values of window layer ≤ fullCost metadata context keys values of layer) :
    unmarked metadata context keys values of window pattern layers = 0 ∧
      narrower metadata context keys values of window (pattern.take layers).zipIdx = 0 := by
  constructor
  · rw [unmarked,Nat.sub_eq_zero_of_le covers]
    rfl
  · rw [narrower,List.sum_eq_zero_iff]
    intro lack inside
    obtain ⟨layer,full,rfl⟩ := List.mem_map.mp inside
    obtain ⟨⟨slides,index⟩,mark,rfl⟩ := List.mem_map.mp full
    obtain ⟨marked,zero⟩ := List.mem_filter.mp mark
    have is_zero : slides = 0 := by simpa using zero
    subst is_zero
    have at_index := List.mem_zipIdx_iff_getElem?.mp marked
    rw [List.getElem?_take] at at_index
    split_ifs at at_index with within
    exact Nat.sub_eq_zero_of_le (wide index within at_index)

/-- Then every layer is charged. -/
theorem covered_charged {metadata : Metadata} {context keys values : ℕ} {pattern : List ℕ} {window : ℕ} {of : Shape}
    {layers capacity bytes : ℕ} (windows_are : windows metadata = some (pattern,window)) (shaped : shape metadata = some of)
    (covers : layers ≤ pattern.length) (wide : ∀ layer < layers, pattern[layer]? = some 0 →
      windowCost metadata context keys values of window layer ≤ fullCost metadata context keys values of layer)
    (returns : cacheBytes metadata capacity context keys values = some (some bytes)) :
    owed metadata context keys values of window layers / 16 ≤ bytes := by
  have balance := owed_balance metadata context keys values of window pattern layers
  obtain ⟨marked,wide_enough⟩ := nothing_lacks covers wide
  rw [marked,wide_enough] at balance
  rw [cacheBytes_windowed windows_are shaped returns]
  exact Nat.div_le_div_right (by omega)

/-- Two layers over a window, by the marks of their pattern. -/
def marksM (marks : List Gguf.Kind.BOOL.Bits) : List (String × Gguf.Value) :=
  [("general.architecture",.Text "m"),("m.block_count",.Scalar .UINT32 2),("m.attention.head_count_kv",.Scalar .UINT32 1),
    ("m.attention.key_length",.Scalar .UINT32 16),("m.attention.sliding_window",.Scalar .UINT32 4),
    ("m.attention.sliding_window_pattern",.Scalars .BOOL marks)]

def fileP : Reading.File := ⟨head 3 0 (marksM [1]),by decide +kernel⟩

/-- Every layer is charged at least its heads over the window exactly where what
    the layers beyond the pattern and the narrower of the full layers lack is
    made up for. -/
theorem charges_every_layer_iff {metadata : Metadata} {context keys values : ℕ} {pattern : List ℕ} {window : ℕ} {of : Shape}
    {layers capacity bytes : ℕ} (windows_are : windows metadata = some (pattern,window)) (shaped : shape metadata = some of)
    (_ : metadata.ofModel "block_count" = some layers)
    (returns : cacheBytes metadata capacity context keys values = some (some bytes)) :
    owed metadata context keys values of window layers / 16 ≤ bytes ↔
      unmarked metadata context keys values of window pattern layers +
          narrower metadata context keys values of window (pattern.take layers).zipIdx ≤
        wider metadata context keys values of window (pattern.take layers).zipIdx +
          surplus metadata context keys values of window pattern layers +
            owed metadata context keys values of window layers % 16 := by
  rw [cacheBytes_windowed windows_are shaped returns]
  refine sixteenth_le_iff ?_
  rw [← Nat.add_assoc]
  exact owed_balance metadata context keys values of window pattern layers

/-- The metadata the marks are read into. -/
def keptM (marks : List Gguf.Kind.BOOL.Bits) : Metadata := (marksM marks).foldl Metadata.keep .empty

theorem interleaved_charged : owed ((marksM [1,0]).foldl Metadata.keep .empty) 8 32 32 ⟨2,1,16,16⟩ 4 2 / 16 ≤ 768 := by
  -- Evaluated together, so that each key is looked up once.
  have kept : (windows (keptM [1,0]) = some ([1,0],4) ∧ shape (keptM [1,0]) = some ⟨2,1,16,16⟩ ∧
      (keptM [1,0]).ofModel "block_count" = some 2 ∧ cacheBytes (keptM [1,0]) 0 8 32 32 = some (some 768)) ∧
      unmarked (keptM [1,0]) 8 32 32 ⟨2,1,16,16⟩ 4 [1,0] 2 + narrower (keptM [1,0]) 8 32 32 ⟨2,1,16,16⟩ 4 ([1,0].take 2).zipIdx ≤
        wider (keptM [1,0]) 8 32 32 ⟨2,1,16,16⟩ 4 ([1,0].take 2).zipIdx + surplus (keptM [1,0]) 8 32 32 ⟨2,1,16,16⟩ 4 [1,0] 2 +
          owed (keptM [1,0]) 8 32 32 ⟨2,1,16,16⟩ 4 2 % 16 := by
    decide +kernel
  obtain ⟨⟨windows_are,shaped,layers,returns⟩,made_up⟩ := kept
  exact (charges_every_layer_iff windows_are shaped layers returns).mpr made_up

/-- A pattern of one mark charges one of two layers. -/
theorem short_pattern_undercharged : ∃ metadata bytes of, Metadata.ofFile fileP = .ok metadata ∧
    windows metadata = some ([1],4) ∧ shape metadata = some of ∧ metadata.ofModel "block_count" = some 2 ∧
      cacheBytes metadata 0 8 32 32 = some (some bytes) ∧ ¬ owed metadata 8 32 32 of 4 2 / 16 ≤ bytes := by
  have is : fileP.bytes = head 3 0 (marksM [1]) ++ [] := (List.append_nil _).symm
  have kept : windows (keptM [1]) = some ([1],4) ∧ shape (keptM [1]) = some ⟨2,1,16,16⟩ ∧
      (keptM [1]).ofModel "block_count" = some 2 ∧ cacheBytes (keptM [1]) 0 8 32 32 = some (some 256) ∧
      ¬ owed (keptM [1]) 8 32 32 ⟨2,1,16,16⟩ 4 2 / 16 ≤ 256 := by
    decide +kernel
  exact ⟨_,256,⟨2,1,16,16⟩,ofFile_is is (by decide +kernel),kept⟩

end Maestro.Estimate
