import Maestro.Estimate
import Maestro.GgufWritten
import Mathlib.Algebra.Order.Floor.Div
import Mathlib.GroupTheory.GroupAction.Ring

/-!
# When the estimate is the documented sum

The sum in natural numbers, and the figures for which the arithmetic of the
estimate stays in range. Where it does, the estimate is the sum; where it does
not, the derivation panics.
-/
namespace Maestro.Estimate
open Gguf (Metadata)

/-! ## The documented sum -/

section Documented
variable (metadata : Metadata) (context keys values : ℕ)

/-- What one token costs in one layer, in sixteenths of a byte. -/
def Shape.tokenCost (shape : Shape) : ℕ := shape.kvHeads * (shape.keyLength * keys + shape.valueLength * values)

/-- What one layer of a windowed model costs. -/
def Layer.cost (layer : Layer) : ℕ := layer.span * layer.heads * (layer.key * keys + layer.value * values)

/-- Which layers slide, declared or assumed, and the window they slide over. -/
def windows : Option (List ℕ × ℕ) := do
  let pattern ← (metadata.perLayer "attention.sliding_window_pattern").or
    ((assumes metadata).map fun (interval,layers) => placed interval layers)
  let window ← metadata.ofModel "attention.sliding_window"
  return (pattern,window)

/-- The layers of a windowed model. -/
def windowed (shape : Shape) (pattern : List ℕ) (window : ℕ) : List Layer :=
  pattern.zipIdx.map fun (slides,layer) => layerAt metadata context shape window slides layer

/-- Keys and values for every layer at this context, in sixteenths of a byte. -/
def cacheSixteenths : Option ℕ :=
  (shape metadata).map fun shape => match windows metadata with
    | some (pattern,window) => ((windowed metadata context shape pattern window).map (Layer.cost keys values)).sum
    | none => shape.layers * context * shape.tokenCost keys values

/-- The figures of a cache that are in range: every assumed layer has a place,
    the cost of a token fits in 128 bits, and so does the cost of all. -/
structure CacheFits (capacity : ℕ) : Prop where
  assumed : ∀ interval layers, (shape metadata).isSome → assumes metadata = some (interval,layers) → layers ≤ capacity
  token : ∀ of, shape metadata = some of → windows metadata = none → of.tokenCost keys values < 2 ^ 128
  total : ∀ total, cacheSixteenths metadata context keys values = some total → total < 2 ^ 128

end Documented

section Sum
variable (disk : Disk) (entry : Entry) (root : OsStr)

/-- The metadata of the model file, where it can be read. -/
def modelMetadata : Option Metadata := (Metadata.read disk (resolve root entry.path)).toOption

/-- The metadata of a draft that keeps a cache of its own. -/
def draftMetadata : Option Metadata :=
  if predictsTokens entry.flags then none
  else entry.draftPath.bind fun draft => (Metadata.read disk (resolve root draft)).toOption

/-- The size of a further file, nothing where there is none. -/
def furtherSize (location : Option String) : ℕ := (location.bind fun location => disk.size (resolve root location)).getD 0

/-- The size of every file the entry names. -/
def weightBytes : ℕ :=
  (disk.size (resolve root entry.path)).getD 0 +
    (siblingSizes disk (resolve root entry.path) (modelMetadata disk entry root)).sum +
    furtherSize disk root entry.draftPath + furtherSize disk root entry.projectorPath

/-- The cache of the model, where its metadata says enough. -/
def modelBytes : Option ℕ :=
  ((modelMetadata disk entry root).bind fun metadata => cacheSixteenths metadata entry.contextSize
    (sixteenths entry.flags ["ctk","cache-type-k"]) (sixteenths entry.flags ["ctv","cache-type-v"])).map (· / 16)

/-- The cache of the draft. -/
def draftBytes : ℕ :=
  (((draftMetadata disk entry root).bind fun metadata => cacheSixteenths metadata entry.contextSize
    (sixteenths entry.flags ["ctkd","cache-type-k-draft"]) (sixteenths entry.flags ["ctvd","cache-type-v-draft"])).map
      (· / 16)).getD 0

/-- What is held on the device. -/
def onDevice (bytes : ℕ) : ℕ := if runsOnProcessor entry.flags then 0 else bytes

/-- The documented total, in bytes. -/
def documented : ℕ :=
  let weights := onDevice entry (weightBytes disk entry root)
  match modelBytes disk entry root with
  | some model =>
    let cache := (if keepsNoCache entry.flags then 0 else onDevice entry model) + onDevice entry (draftBytes disk entry root)
    weights + cache + weights * 5 / 100 + OVERHEAD_BYTES
  | none => weights + weights / 4 + OVERHEAD_BYTES

/-- What the documented total rests on. -/
def basis : Basis := if (modelBytes disk entry root).isSome then .Metadata else .Size

/-- The figures of an entry that are in range: the sizes of its files together,
    and the caches of its model and of its draft. -/
structure InRange (capacity : ℕ) : Prop where
  files : weightBytes disk entry root < 2 ^ 64
  model : ∀ metadata, modelMetadata disk entry root = some metadata → CacheFits metadata entry.contextSize
    (sixteenths entry.flags ["ctk","cache-type-k"]) (sixteenths entry.flags ["ctv","cache-type-v"]) capacity
  draft : ∀ metadata, draftMetadata disk entry root = some metadata → CacheFits metadata entry.contextSize
    (sixteenths entry.flags ["ctkd","cache-type-k-draft"]) (sixteenths entry.flags ["ctvd","cache-type-v-draft"]) capacity

end Sum

/-! ## The cache in range -/

theorem sixteenths_small (flags : List (String × String)) (names : List String) : sixteenths flags names ≤ 64 := by
  unfold sixteenths
  split <;> decide

/-- The figures a layer can have. -/
structure Layer.Small (layer : Layer) : Prop where
  span : layer.span < 2 ^ 32
  heads : layer.heads < 2 ^ 64
  key : layer.key < 2 ^ 64
  value : layer.value < 2 ^ 64

section Small
variable {metadata : Metadata} (small : metadata.Small)
include small

theorem ofModel_small {suffix : String} {n : ℕ} (is : metadata.ofModel suffix = some n) : n < 2 ^ 64 := by
  unfold Metadata.ofModel at is
  obtain ⟨name,_,is⟩ := Option.bind_eq_some_iff.mp is
  exact small.numbers _ n is

theorem getD_small {suffix : String} {other : ℕ} (bound : other < 2 ^ 64) :
    (metadata.ofModel suffix).getD other < 2 ^ 64 := by
  cases is : metadata.ofModel suffix with
  | none => exact bound
  | some n => exact ofModel_small small is

theorem shape_small {of : Shape} (is : shape metadata = some of) :
    of.layers < 2 ^ 64 ∧ of.kvHeads < 2 ^ 64 ∧ of.keyLength < 2 ^ 64 ∧ of.valueLength < 2 ^ 64 := by
  unfold shape at is
  obtain ⟨layers,cached,is⟩ := Option.bind_eq_some_iff.mp is
  obtain ⟨kvHeads,heads_are,is⟩ := Option.bind_eq_some_iff.mp is
  obtain ⟨keyLength,key_is,is⟩ := Option.bind_eq_some_iff.mp is
  cases is
  have layers_small : layers < 2 ^ 64 := by
    obtain ⟨blocks,blocks_are,rfl⟩ := Option.map_eq_some_iff.mp cached
    have bound := ofModel_small small blocks_are
    have fewer (interval : ℕ) : blocks / interval ≤ blocks := Nat.div_le_self _ _
    split
    · rename_i interval _
      have := fewer interval
      split_ifs <;> omega
    · exact bound
  have heads_small : kvHeads < 2 ^ 64 := by
    rcases Option.or_eq_some_iff.mp heads_are with is | ⟨_,is⟩
    · exact ofModel_small small is
    · exact ofModel_small small is
  have key_small : keyLength < 2 ^ 64 := by
    unfold Estimate.keyLength at key_is
    split at key_is
    · rename_i length length_is
      cases key_is
      exact ofModel_small small length_is
    · obtain ⟨embedding,embedding_is,key_is⟩ := Option.bind_eq_some_iff.mp key_is
      obtain ⟨heads,_,key_is⟩ := Option.bind_eq_some_iff.mp key_is
      split_ifs at key_is
      cases key_is
      exact Nat.lt_of_le_of_lt (Nat.div_le_self _ _) (ofModel_small small embedding_is)
  exact ⟨layers_small,heads_small,key_small,getD_small small key_small⟩

/-- The figures of a layer are those of the file, and the span is no longer than
    the context. -/
theorem layerAt_small {of : Shape} (is : shape metadata = some of) {context : ℕ} (tokens : context < 2 ^ 32)
    (window slides layer : ℕ) : (layerAt metadata context of window slides layer).Small := by
  obtain ⟨_,heads_small,key_small,value_small⟩ := shape_small small is
  have swa_key : (metadata.ofModel "attention.key_length_swa").getD of.keyLength < 2 ^ 64 := getD_small small key_small
  have swa_value : (metadata.ofModel "attention.value_length_swa").getD
      ((metadata.ofModel "attention.key_length_swa").getD of.keyLength) < 2 ^ 64 := getD_small small swa_key
  have by_layer : ((metadata.perLayer "attention.head_count_kv").bind fun counts => counts[layer]?).getD of.kvHeads <
      2 ^ 64 := by
    cases told : (metadata.perLayer "attention.head_count_kv").bind fun counts => counts[layer]? with
    | none => exact heads_small
    | some n =>
      obtain ⟨counts,counts_are,n_is⟩ := Option.bind_eq_some_iff.mp told
      unfold Metadata.perLayer at counts_are
      obtain ⟨name,_,counts_are⟩ := Option.bind_eq_some_iff.mp counts_are
      exact small.layers _ counts counts_are n (List.mem_of_getElem? n_is)
  unfold layerAt
  dsimp only
  split_ifs
  · exact ⟨tokens,by_layer,key_small,value_small⟩
  · exact ⟨Nat.lt_of_le_of_lt (Nat.min_le_left _ _) tokens,by_layer,swa_key,swa_value⟩

end Small

section Costs
variable {keys values key value : ℕ} (keys_small : keys ≤ 64) (values_small : values ≤ 64) (key_small : key < 2 ^ 64)
  (value_small : value < 2 ^ 64)
include keys_small values_small key_small value_small

/-- The cost of one key and one value is far inside the range. -/
theorem element_small : key * keys < 2 ^ 70 ∧ value * values < 2 ^ 70 := by
  have keyed : key * keys ≤ (2 ^ 64 - 1) * 64 := Nat.mul_le_mul (by omega) keys_small
  have valued : value * values ≤ (2 ^ 64 - 1) * 64 := Nat.mul_le_mul (by omega) values_small
  omega

theorem perToken_eq (heads : ℕ) : perToken keys values heads key value =
    if heads * (key * keys + value * values) < 2 ^ 128 then some (heads * (key * keys + value * values)) else none := by
  obtain ⟨keyed,valued⟩ := element_small keys_small values_small key_small value_small
  unfold perToken
  rw [Checked.mul_of_lt (by omega : key * keys < 2 ^ 128),Checked.mul_of_lt (by omega : value * values < 2 ^ 128)]
  show (Checked.add 128 (key * keys) (value * values)).bind _ = _
  rw [Checked.add_of_lt (by omega)]
  rfl

end Costs

theorem layerCost_eq {keys values : ℕ} (keys_small : keys ≤ 64) (values_small : values ≤ 64) {layer : Layer}
    (small : layer.Small) : layerCost keys values layer =
      if layer.cost keys values < 2 ^ 128 then some (layer.cost keys values) else none := by
  obtain ⟨keyed,valued⟩ := element_small keys_small values_small small.key small.value
  have spanned : layer.span * layer.heads ≤ (2 ^ 32 - 1) * (2 ^ 64 - 1) :=
    Nat.mul_le_mul (Nat.le_sub_one_of_lt small.span) (Nat.le_sub_one_of_lt small.heads)
  unfold layerCost
  rw [Checked.mul_of_lt (by omega : layer.span * layer.heads < 2 ^ 128),
    Checked.mul_of_lt (by omega : layer.key * keys < 2 ^ 128),Checked.mul_of_lt (by omega : layer.value * values < 2 ^ 128)]
  show (Checked.add 128 (layer.key * keys) (layer.value * values)).bind _ = _
  rw [Checked.add_of_lt (by omega)]
  rfl

section CacheExact
variable {metadata : Metadata} (small : metadata.Small) {context keys values : ℕ} (tokens : context < 2 ^ 32)
  (keys_small : keys ≤ 64) (values_small : values ≤ 64) (capacity : ℕ)
include small tokens keys_small values_small

/-- The layers of a windowed model cost what they cost together, where that is
    in range. -/
theorem windowed_eq {of : Shape} (is : shape metadata = some of) (pattern : List ℕ) (window : ℕ) :
    let total := ((windowed metadata context of pattern window).map (Layer.cost keys values)).sum
    (pattern.zipIdx.foldlM (fun total (slides,layer) => do
      Checked.add 128 total (← layerCost keys values (layerAt metadata context of window slides layer))) 0) =
        if total < 2 ^ 128 then some total else none := by
  intro total
  have costs : ∀ at_index ∈ pattern.zipIdx,
      layerCost keys values (layerAt metadata context of window at_index.1 at_index.2) =
        if (layerAt metadata context of window at_index.1 at_index.2).cost keys values < 2 ^ 128
        then some ((layerAt metadata context of window at_index.1 at_index.2).cost keys values) else none :=
    fun at_index _ => layerCost_eq keys_small values_small (layerAt_small small is tokens window at_index.1 at_index.2)
  have terms := Checked.foldlM_terms costs (Nat.two_pow_pos 128)
  have whole : total = (pattern.zipIdx.map fun at_index =>
      (layerAt metadata context of window at_index.1 at_index.2).cost keys values).sum := by
    show ((windowed metadata context of pattern window).map (Layer.cost keys values)).sum = _
    rw [windowed,List.map_map]
    rfl
  rw [Nat.zero_add,← whole] at terms
  exact terms

/-- A dense model costs what it costs, where that is in range. -/
theorem dense_eq_some_iff {of : Shape} (is : shape metadata = some of) {bytes : Option ℕ} :
    (do
      let perToken ← perToken keys values of.kvHeads of.keyLength of.valueLength
      let spanned ← Checked.mul 128 of.layers context
      return some ((← Checked.mul 128 spanned perToken) / 16) : Option (Option ℕ)) = some bytes ↔
    (of.tokenCost keys values < 2 ^ 128 ∧ of.layers * context * of.tokenCost keys values < 2 ^ 128) ∧
      bytes = some (of.layers * context * of.tokenCost keys values / 16) := by
  obtain ⟨layers_small,_,key_small,value_small⟩ := shape_small small is
  have spanned : of.layers * context ≤ (2 ^ 64 - 1) * (2 ^ 32 - 1) :=
    Nat.mul_le_mul (Nat.le_sub_one_of_lt layers_small) (Nat.le_sub_one_of_lt tokens)
  have cost : of.kvHeads * (of.keyLength * keys + of.valueLength * values) = of.tokenCost keys values := rfl
  rw [perToken_eq keys_small values_small key_small value_small,cost,Checked.mul_of_lt (by omega : of.layers * context < 2 ^ 128)]
  by_cases token : of.tokenCost keys values < 2 ^ 128
  · rw [if_pos token]
    show (Checked.mul 128 (of.layers * context) (of.tokenCost keys values)).bind _ = _ ↔ _
    by_cases total : of.layers * context * of.tokenCost keys values < 2 ^ 128
    · rw [Checked.mul_of_lt total]
      constructor
      · intro same
        cases same
        exact ⟨⟨token,total⟩,rfl⟩
      · rintro ⟨_,rfl⟩
        rfl
    · rw [Checked.mul_of_ge total]
      constructor
      · intro is
        cases is
      · rintro ⟨⟨_,fits⟩,_⟩
        exact absurd fits total
  · rw [if_neg token]
    constructor
    · intro is
      cases is
    · rintro ⟨⟨fits,_⟩,_⟩
      exact absurd fits token

omit small tokens keys_small values_small in
theorem assumed_eq_some_iff {assumed : Option (List ℕ)} : assumedPattern metadata capacity = some assumed ↔
    (∀ interval layers, assumes metadata = some (interval,layers) → layers ≤ capacity) ∧
      assumed = (assumes metadata).map fun (interval,layers) => placed interval layers := by
  unfold assumedPattern
  cases of : assumes metadata with
  | none => simp [eq_comm]
  | some pair =>
    obtain ⟨interval,layers⟩ := pair
    by_cases room : layers ≤ capacity
    · simp [room,eq_comm]
    · simp [room]

omit small tokens keys_small values_small in
theorem cacheSixteenths_of_shape {of : Shape} (is : shape metadata = some of) :
    cacheSixteenths metadata context keys values = some (match windows metadata with
      | some (pattern,window) => ((windowed metadata context of pattern window).map (Layer.cost keys values)).sum
      | none => of.layers * context * of.tokenCost keys values) := by
  rw [cacheSixteenths,is]
  rfl

omit small tokens keys_small values_small in
theorem cacheFits_of_shapeless (is : shape metadata = none) : CacheFits metadata context keys values capacity := by
  constructor
  · intro interval layers here
    simp [is] at here
  · intro of here
    simp [is] at here
  · intro total here
    simp [cacheSixteenths,is] at here

omit small tokens keys_small values_small in
theorem cacheFits_iff_of_shape {of : Shape} (is : shape metadata = some of) :
    CacheFits metadata context keys values capacity ↔
      (∀ interval layers, assumes metadata = some (interval,layers) → layers ≤ capacity) ∧
      (windows metadata = none → of.tokenCost keys values < 2 ^ 128) ∧
      ∀ total, cacheSixteenths metadata context keys values = some total → total < 2 ^ 128 := by
  constructor
  · rintro ⟨assumed,token,total⟩
    exact ⟨fun interval layers => assumed interval layers (by simp [is]),token of is,total⟩
  · rintro ⟨assumed,token,total⟩
    refine ⟨fun interval layers _ => assumed interval layers,fun other here => ?_,total⟩
    obtain rfl : of = other := Option.some.inj (is.symm.trans here)
    exact token

omit small tokens keys_small values_small in
/-- The window goes by the pattern the code comes to. -/
theorem windows_of_assumed {assumed : Option (List ℕ)}
    (is : assumed = (assumes metadata).map fun (interval,layers) => placed interval layers) :
    windows metadata = ((metadata.perLayer "attention.sliding_window_pattern").or assumed).bind fun pattern =>
      (metadata.ofModel "attention.sliding_window").map fun window => (pattern,window) := by
  rw [is]
  unfold windows
  cases metadata.ofModel "attention.sliding_window" <;> rfl

/-- A model whose layers differ costs what they cost, where that is in range. -/
theorem layered_eq_some_iff {of : Shape} (is : shape metadata = some of) (pattern : List ℕ) (window : ℕ)
    {bytes : Option ℕ} :
    (do
      let total ← pattern.zipIdx.foldlM (fun total (slides,layer) => do
        Checked.add 128 total (← layerCost keys values (layerAt metadata context of window slides layer))) 0
      return some (total / 16) : Option (Option ℕ)) = some bytes ↔
    ((windowed metadata context of pattern window).map (Layer.cost keys values)).sum < 2 ^ 128 ∧
      bytes = some (((windowed metadata context of pattern window).map (Layer.cost keys values)).sum / 16) := by
  have folded := windowed_eq small tokens keys_small values_small is pattern window
  dsimp only [Option.bind_eq_bind] at folded ⊢
  rw [folded]
  by_cases total : ((windowed metadata context of pattern window).map (Layer.cost keys values)).sum < 2 ^ 128
  · rw [if_pos total]
    constructor
    · intro same
      cases same
      exact ⟨total,rfl⟩
    · rintro ⟨_,rfl⟩
      rfl
  · rw [if_neg total]
    constructor
    · intro same
      cases same
    · rintro ⟨fits,_⟩
      exact absurd fits total

/-- The cache is what it is in natural numbers, where its figures are in range. -/
theorem cacheBytes_eq_some_iff {bytes : Option ℕ} : cacheBytes metadata capacity context keys values = some bytes ↔
    CacheFits metadata context keys values capacity ∧ bytes = (cacheSixteenths metadata context keys values).map (· / 16) := by
  unfold cacheBytes
  cases is : shape metadata with
  | none =>
    simp [cacheSixteenths,is,cacheFits_of_shapeless capacity is,eq_comm]
  | some of =>
    have told : cacheSixteenths metadata context keys values = _ := cacheSixteenths_of_shape is
    rw [cacheFits_iff_of_shape capacity is]
    cases assumed_is : assumedPattern metadata capacity with
    | none =>
      have unplaced : ¬ ∀ interval layers, assumes metadata = some (interval,layers) → layers ≤ capacity := by
        intro all
        have placed := (assumed_eq_some_iff capacity).mpr ⟨all,rfl⟩
        rw [assumed_is] at placed
        cases placed
      simp [unplaced]
    | some assumed =>
      obtain ⟨all,assumed_are⟩ := (assumed_eq_some_iff capacity).mp assumed_is
      have within := windows_of_assumed assumed_are
      -- Both ways to have no window come to the single product.
      have single (none_is : windows metadata = none) :
          (of.tokenCost keys values < 2 ^ 128 ∧ of.layers * context * of.tokenCost keys values < 2 ^ 128) ∧
              bytes = some (of.layers * context * of.tokenCost keys values / 16) ↔
            ((∀ interval layers, assumes metadata = some (interval,layers) → layers ≤ capacity) ∧
              (windows metadata = none → of.tokenCost keys values < 2 ^ 128) ∧
              ∀ total, cacheSixteenths metadata context keys values = some total → total < 2 ^ 128) ∧
              bytes = (cacheSixteenths metadata context keys values).map (· / 16) := by
        rw [told,none_is]
        constructor
        · rintro ⟨⟨token,total⟩,rfl⟩
          refine ⟨⟨all,fun _ => token,?_⟩,rfl⟩
          intro other same
          cases same
          exact total
        · rintro ⟨⟨_,token,total⟩,rfl⟩
          exact ⟨⟨token rfl,total _ rfl⟩,rfl⟩
      dsimp only [Option.bind_eq_bind,Option.bind_some]
      cases pattern_is : (metadata.perLayer "attention.sliding_window_pattern").or assumed with
      | none =>
        have none_is : windows metadata = none := by rw [within,pattern_is]; rfl
        exact (dense_eq_some_iff small tokens keys_small values_small is).trans (single none_is)
      | some pattern =>
        cases window_is : metadata.ofModel "attention.sliding_window" with
        | none =>
          have none_is : windows metadata = none := by rw [within,pattern_is,window_is]; rfl
          exact (dense_eq_some_iff small tokens keys_small values_small is).trans (single none_is)
        | some window =>
          have some_is : windows metadata = some (pattern,window) := by rw [within,pattern_is,window_is]; rfl
          rw [told,some_is]
          refine (layered_eq_some_iff small tokens keys_small values_small is pattern window).trans ?_
          constructor
          · rintro ⟨total,rfl⟩
            refine ⟨⟨all,?_,?_⟩,rfl⟩
            · intro none_is
              cases none_is
            · intro other same
              cases same
              exact total
          · rintro ⟨⟨_,_,fits⟩,rfl⟩
            exact ⟨fits _ rfl,rfl⟩

end CacheExact

/-! ## The estimate in range -/

section DeriveExact
variable {capacity : ℕ} {disk : Disk} {entry : Entry} {root : OsStr} (tokens : entry.contextSize < 2 ^ 32)

theorem small_of_readable {path : OsStr} {metadata : Metadata} (is : (Metadata.read disk path).toOption = some metadata) :
    metadata.Small :=
  Gguf.read_small disk path (Reading.toOption_eq_some.mp is)

/-- A cache that is in range is far from the end of it. -/
theorem cache_small {metadata : Metadata} {context keys values bytes : ℕ} (fits : CacheFits metadata context keys values capacity)
    (is : (cacheSixteenths metadata context keys values).map (· / 16) = some bytes) : bytes < 2 ^ 124 := by
  obtain ⟨total,total_is,rfl⟩ := Option.map_eq_some_iff.mp is
  have bound := fits.total total total_is
  omega

include tokens

theorem draftCache_eq_some_iff {draft : String} (drafts : entry.draftPath = some draft) {bytes : ℕ} :
    draftCache capacity disk entry (resolve root draft) = some bytes ↔
      (∀ metadata, draftMetadata disk entry root = some metadata → CacheFits metadata entry.contextSize
        (sixteenths entry.flags ["ctkd","cache-type-k-draft"]) (sixteenths entry.flags ["ctvd","cache-type-v-draft"]) capacity) ∧
      bytes = draftBytes disk entry root := by
  unfold draftCache draftBytes
  by_cases predicts : predictsTokens entry.flags = true
  · have without : draftMetadata disk entry root = none := by rw [draftMetadata,if_pos predicts]
    rw [if_pos predicts,without]
    simp [eq_comm]
  have with_draft : draftMetadata disk entry root = (Metadata.read disk (resolve root draft)).toOption := by
    rw [draftMetadata,if_neg predicts,drafts]
    rfl
  rw [if_neg predicts,with_draft]
  cases reads : Metadata.read disk (resolve root draft) with
  | error fault => simp [Except.toOption,eq_comm]
  | ok metadata =>
    set keys := sixteenths entry.flags ["ctkd","cache-type-k-draft"] with keys_are
    set values := sixteenths entry.flags ["ctvd","cache-type-v-draft"] with values_are
    have small := Gguf.read_small disk _ reads
    have exact_cache := @cacheBytes_eq_some_iff metadata small entry.contextSize keys values tokens
      (sixteenths_small _ _) (sixteenths_small _ _) capacity
    show ((cacheBytes metadata capacity entry.contextSize keys values).bind fun bytes =>
      Checked.add 128 0 (bytes.getD 0)) = some bytes ↔ _
    rw [Option.bind_eq_some_iff]
    constructor
    · rintro ⟨cached,cached_is,sum⟩
      obtain ⟨fits,rfl⟩ := exact_cache.mp cached_is
      obtain ⟨_,rfl⟩ := Checked.add_eq_some.mp sum
      refine ⟨fun other same => ?_,Nat.zero_add _⟩
      obtain rfl : metadata = other := Option.some.inj same
      exact fits
    · rintro ⟨all,rfl⟩
      have fits := all metadata rfl
      refine ⟨_,exact_cache.mpr ⟨fits,rfl⟩,Checked.add_eq_some.mpr ⟨?_,Nat.zero_add _⟩⟩
      cases is : (cacheSixteenths metadata entry.contextSize keys values).map (· / 16) with
      | none => simp
      | some total =>
        have bound := cache_small fits is
        simp only [Option.getD_some]
        omega

/-- The draft adds its size to the weights, and a cache of its own. -/
theorem withDraft_eq_some_iff {weights : ℕ} (bounded : weights < 2 ^ 64) {sums : ℕ × ℕ} :
    withDraft capacity disk entry root weights = some sums ↔
      weights + furtherSize disk root entry.draftPath < 2 ^ 64 ∧
      (∀ metadata, draftMetadata disk entry root = some metadata → CacheFits metadata entry.contextSize
        (sixteenths entry.flags ["ctkd","cache-type-k-draft"]) (sixteenths entry.flags ["ctvd","cache-type-v-draft"]) capacity) ∧
      sums = (weights + furtherSize disk root entry.draftPath,draftBytes disk entry root) := by
  unfold withDraft
  cases drafts : entry.draftPath with
  | none =>
    have without : draftMetadata disk entry root = none := by simp [draftMetadata,drafts]
    have no_bytes : draftBytes disk entry root = 0 := by simp [draftBytes,without]
    have no_size : furtherSize disk root none = 0 := rfl
    rw [no_bytes,no_size,without]
    constructor
    · intro is
      cases is
      exact ⟨bounded,fun _ is => (by cases is),rfl⟩
    · rintro ⟨_,_,rfl⟩
      rfl
  | some draft =>
    have size_is : furtherSize disk root (some draft) = (disk.size (resolve root draft)).getD 0 := rfl
    rw [size_is]
    show ((Checked.add 64 weights ((disk.size (resolve root draft)).getD 0)).bind fun weights =>
      (draftCache capacity disk entry (resolve root draft)).bind fun cache => some (weights,cache)) = some sums ↔ _
    simp only [Option.bind_eq_some_iff,Checked.add_eq_some,draftCache_eq_some_iff tokens drafts]
    constructor
    · rintro ⟨sum,⟨fits,rfl⟩,cache,⟨all,rfl⟩,is⟩
      cases is
      exact ⟨fits,all,rfl⟩
    · rintro ⟨fits,all,rfl⟩
      exact ⟨_,⟨fits,rfl⟩,_,⟨all,rfl⟩,rfl⟩

omit tokens in
theorem withProjector_eq_some_iff {weights : ℕ} (bounded : weights < 2 ^ 64) {sum : ℕ} :
    withProjector disk entry root weights = some sum ↔
      weights + furtherSize disk root entry.projectorPath < 2 ^ 64 ∧ sum = weights + furtherSize disk root entry.projectorPath := by
  unfold withProjector
  cases entry.projectorPath with
  | none =>
    have no_size : furtherSize disk root none = 0 := rfl
    rw [no_size]
    constructor
    · intro is
      cases is
      exact ⟨bounded,rfl⟩
    · rintro ⟨_,rfl⟩
      rfl
  | some projector =>
    have size_is : furtherSize disk root (some projector) = (disk.size (resolve root projector)).getD 0 := rfl
    rw [size_is]
    simp only [Checked.add_eq_some]
    exact and_congr_right fun _ => eq_comm

/-- The cache of the model, where its figures are in range. -/
theorem modelCache_eq_some_iff {bytes : Option ℕ} :
    modelCache capacity entry (modelMetadata disk entry root) = some bytes ↔
      (∀ metadata, modelMetadata disk entry root = some metadata → CacheFits metadata entry.contextSize
        (sixteenths entry.flags ["ctk","cache-type-k"]) (sixteenths entry.flags ["ctv","cache-type-v"]) capacity) ∧
      bytes = modelBytes disk entry root := by
  unfold modelCache modelBytes
  cases is : modelMetadata disk entry root with
  | none => simp [eq_comm]
  | some metadata =>
    have exact_cache := @cacheBytes_eq_some_iff metadata (small_of_readable is) entry.contextSize
      (sixteenths entry.flags ["ctk","cache-type-k"]) (sixteenths entry.flags ["ctv","cache-type-v"]) tokens
      (sixteenths_small _ _) (sixteenths_small _ _) capacity bytes
    refine exact_cache.trans (and_congr_left fun _ => ?_)
    constructor
    · intro fits other same
      obtain rfl : metadata = other := Option.some.inj same
      exact fits
    · intro all
      exact all metadata rfl

end DeriveExact

/-! ## The sum in range -/

section SumExact
variable {entry : Entry} {weights cache : ℕ}

/-- What is left of the model's cache by the way it is served. -/
def kept (entry : Entry) (bytes : ℕ) : ℕ := if keepsNoCache entry.flags || runsOnProcessor entry.flags then 0 else bytes

theorem sumOf_sized : sumOf entry weights cache none = (Checked.add 128 weights (weights / 4)).bind fun bytes =>
    (Checked.add 128 bytes OVERHEAD_BYTES).bind fun bytes => some (bytes,.Size) := rfl

theorem sumOf_read {model : ℕ} : sumOf entry weights cache (some model) =
    (Checked.add 128 weights (kept entry model)).bind fun bytes => (Checked.add 128 bytes cache).bind fun bytes =>
      (Checked.mul 128 weights 5).bind fun fragmentation => (Checked.add 128 bytes (fragmentation / 100)).bind fun bytes =>
        (Checked.add 128 bytes OVERHEAD_BYTES).bind fun bytes => some (bytes,.Metadata) := rfl

theorem overhead_small : OVERHEAD_BYTES < 2 ^ 31 := by decide

/-- The sum in natural numbers. -/
def summed (entry : Entry) (weights cache : ℕ) : Option ℕ → ℕ × Basis
  | some bytes => (weights + kept entry bytes + cache + weights * 5 / 100 + OVERHEAD_BYTES,.Metadata)
  | none => (weights + weights / 4 + OVERHEAD_BYTES,.Size)

/-- The sum of terms in range is in range. -/
theorem sumOf_eq (weights_small : weights < 2 ^ 64) (cache_bound : cache < 2 ^ 124) {model : Option ℕ}
    (model_small : ∀ bytes, model = some bytes → bytes < 2 ^ 124) :
    sumOf entry weights cache model = some (summed entry weights cache model) := by
  have small := overhead_small
  cases model with
  | none =>
    rw [sumOf_sized,summed]
    generalize OVERHEAD_BYTES = overhead at small ⊢
    rw [Checked.add_of_lt (by omega),Option.bind_some,Checked.add_of_lt (by omega),Option.bind_some]
  | some bytes =>
    have own_small : kept entry bytes < 2 ^ 124 := by
      have := model_small bytes rfl
      unfold kept
      split_ifs <;> omega
    rw [sumOf_read,summed]
    generalize OVERHEAD_BYTES = overhead at small ⊢
    generalize kept entry bytes = own at own_small ⊢
    rw [Checked.add_of_lt (by omega),Option.bind_some,Checked.add_of_lt (by omega),Option.bind_some,
      Checked.mul_of_lt (by omega),Option.bind_some,Checked.add_of_lt (by omega),Option.bind_some,
      Checked.add_of_lt (by omega),Option.bind_some]

end SumExact

/-! ## The estimate -/

section Whole
variable {capacity : ℕ} {disk : Disk} {entry : Entry} {root : OsStr} {size : ℕ}

/-- Without its model file an entry has no estimate. -/
theorem derive_missing (missing : disk.size (resolve root entry.path) = none) :
    ∃ reason, derive capacity disk entry root = some (.error reason) := by
  refine ⟨s!"no model file at '{Path.display (resolve root entry.path)}'",?_⟩
  unfold derive weightsOf
  dsimp only
  rw [missing]

theorem documented_eq : documented disk entry root = match modelBytes disk entry root with
    | some bytes => onDevice entry (weightBytes disk entry root) + kept entry bytes + onDevice entry (draftBytes disk entry root) +
        onDevice entry (weightBytes disk entry root) * 5 / 100 + OVERHEAD_BYTES
    | none => onDevice entry (weightBytes disk entry root) + onDevice entry (weightBytes disk entry root) / 4 + OVERHEAD_BYTES := by
  unfold documented
  cases modelBytes disk entry root with
  | none => rfl
  | some bytes =>
    have own : (if keepsNoCache entry.flags then 0 else onDevice entry bytes) = kept entry bytes := by
      unfold kept onDevice
      cases keepsNoCache entry.flags <;> cases runsOnProcessor entry.flags <;> rfl
    dsimp only
    rw [own,Nat.add_assoc (onDevice entry (weightBytes disk entry root)) (kept entry bytes)]

/-- A figure is rounded up to whole mebibytes, and saturated. -/
theorem inMebibytes_eq (bytes : ℕ) : inMebibytes bytes = min (2 ^ 32 - 1) (bytes ⌈/⌉ 2 ^ 20) := by
  have mib : MIB = 2 ^ 20 := by decide
  have pred : bytes + (MIB - 1) = bytes + 2 ^ 20 - 1 := by omega
  unfold inMebibytes
  rw [pred,mib,Nat.ceilDiv_eq_add_pred_div,Nat.min_comm]

theorem onDevice_le (bytes : ℕ) : onDevice entry bytes ≤ bytes := by
  unfold onDevice
  split_ifs <;> omega

theorem modelBytes_small (range : InRange disk entry root capacity) {bytes : ℕ} (is : modelBytes disk entry root = some bytes) :
    bytes < 2 ^ 124 := by
  unfold modelBytes at is
  cases model : modelMetadata disk entry root with
  | none => simp [model] at is
  | some metadata =>
    rw [model] at is
    exact cache_small (range.model metadata model) is

theorem draftBytes_small (range : InRange disk entry root capacity) : draftBytes disk entry root < 2 ^ 124 := by
  unfold draftBytes
  cases draft : draftMetadata disk entry root with
  | none => simp
  | some metadata =>
    rw [Option.bind_some]
    cases is : (cacheSixteenths metadata entry.contextSize (sixteenths entry.flags ["ctkd","cache-type-k-draft"])
        (sixteenths entry.flags ["ctvd","cache-type-v-draft"])).map (· / 16) with
    | none => simp
    | some bytes => exact cache_small (range.draft metadata draft) is

theorem sum_in_range (range : InRange disk entry root capacity) :
    sumOf entry (onDevice entry (weightBytes disk entry root)) (onDevice entry (draftBytes disk entry root))
      (modelBytes disk entry root) = some (documented disk entry root,basis disk entry root) := by
  have weights_small : onDevice entry (weightBytes disk entry root) < 2 ^ 64 :=
    Nat.lt_of_le_of_lt (onDevice_le _) range.files
  have cache_bound : onDevice entry (draftBytes disk entry root) < 2 ^ 124 :=
    Nat.lt_of_le_of_lt (onDevice_le _) (draftBytes_small range)
  rw [sumOf_eq weights_small cache_bound fun bytes => modelBytes_small range,documented_eq,basis]
  cases modelBytes disk entry root <;> rfl

variable (tokens : entry.contextSize < 2 ^ 32) (there : disk.size (resolve root entry.path) = some size)
include tokens there

/-- With its model file, an entry whose figures are in range has the documented
    total for an estimate, and any other has none. -/
theorem derive_eq_some_iff {result : Except String Derived} : derive capacity disk entry root = some result ↔
    InRange disk entry root capacity ∧ result = .ok ⟨inMebibytes (documented disk entry root),basis disk entry root⟩ := by
  have size_small : size < 2 ^ 64 := Nat.lt_trans (disk.size_small _ there) (by decide)
  set siblings := (siblingSizes disk (resolve root entry.path) (modelMetadata disk entry root)).sum with siblings_are
  have whole : weightBytes disk entry root =
      size + siblings + furtherSize disk root entry.draftPath + furtherSize disk root entry.projectorPath := by
    rw [weightBytes,there]
    rfl
  have weighs : weightsOf disk (resolve root entry.path) (modelMetadata disk entry root) =
      if size + siblings < 2 ^ 64 then some (.ok (size + siblings)) else none := by
    unfold weightsOf
    rw [there]
    dsimp only
    rw [Checked.foldlM_add 64 _ size size_small]
    split_ifs <;> rfl
  unfold derive
  change weightsOf disk (resolve root entry.path) (Metadata.read disk (resolve root entry.path)).toOption = _ at weighs
  dsimp only
  rw [weighs]
  by_cases fits : size + siblings < 2 ^ 64
  swap
  · rw [if_neg fits]
    constructor
    · intro is
      cases is
    · rintro ⟨range,_⟩
      have := range.files
      omega
  rw [if_pos fits]
  show (withDraft capacity disk entry root (size + siblings)).bind (fun sums =>
    (withProjector disk entry root sums.1).bind fun weights =>
      (modelCache capacity entry (modelMetadata disk entry root)).bind fun model =>
        (sumOf entry (onDevice entry weights) (onDevice entry sums.2) model).bind fun sum =>
          some (.ok ⟨inMebibytes sum.1,sum.2⟩)) = some result ↔ _
  simp only [Option.bind_eq_some_iff,withDraft_eq_some_iff tokens fits,modelCache_eq_some_iff tokens]
  constructor
  · rintro ⟨_,⟨drafted,draft_fits,rfl⟩,projected,project_is,model,⟨model_fits,rfl⟩,sum,sum_is,is⟩
    obtain ⟨bounded,rfl⟩ := (withProjector_eq_some_iff drafted).mp project_is
    have range : InRange disk entry root capacity := ⟨whole ▸ bounded,model_fits,draft_fits⟩
    refine ⟨range,?_⟩
    rw [← whole,sum_in_range range] at sum_is
    cases sum_is
    exact (Option.some.inj is).symm
  · rintro ⟨range,rfl⟩
    have bounded := range.files
    rw [whole] at bounded
    have drafted : size + siblings + furtherSize disk root entry.draftPath < 2 ^ 64 := by omega
    refine ⟨_,⟨drafted,range.draft,rfl⟩,_,(withProjector_eq_some_iff drafted).mpr ⟨bounded,rfl⟩,_,⟨range.model,rfl⟩,
      (documented disk entry root,basis disk entry root),?_,rfl⟩
    rw [← whole]
    exact sum_in_range range

omit there in
/-- A derivation goes through where the figures of the files that are there are
    in range. -/
theorem derive_isSome_iff : (derive capacity disk entry root).isSome ↔
    ((disk.size (resolve root entry.path)).isSome → InRange disk entry root capacity) := by
  cases there : disk.size (resolve root entry.path) with
  | none =>
    obtain ⟨reason,is⟩ := @derive_missing capacity disk entry root there
    simp [is]
  | some size =>
    constructor
    · intro through _
      obtain ⟨result,is⟩ := Option.isSome_iff_exists.mp through
      exact ((derive_eq_some_iff tokens there).mp is).1
    · intro range
      rw [(derive_eq_some_iff tokens there).mpr ⟨range rfl,rfl⟩]
      rfl

omit there in
/-- It gives a figure where there is a model file as well. -/
theorem derive_ok_iff : (∃ derived, derive capacity disk entry root = some (.ok derived)) ↔
    (disk.size (resolve root entry.path)).isSome ∧ InRange disk entry root capacity := by
  cases there : disk.size (resolve root entry.path) with
  | none =>
    obtain ⟨reason,is⟩ := @derive_missing capacity disk entry root there
    simp [is]
  | some size =>
    constructor
    · rintro ⟨derived,is⟩
      exact ⟨rfl,((derive_eq_some_iff tokens there).mp is).1⟩
    · rintro ⟨_,range⟩
      exact ⟨_,(derive_eq_some_iff tokens there).mpr ⟨range,rfl⟩⟩

omit tokens there in
/-- What an entry is estimated to cost is never nothing. -/
theorem inMebibytes_positive {bytes : ℕ} (positive : 0 < bytes) : 0 < inMebibytes bytes ∧ inMebibytes bytes < 2 ^ 32 := by
  have mib : MIB = 2 ^ 20 := by decide
  unfold inMebibytes
  rw [mib]
  omega

omit tokens there in
theorem documented_positive : 0 < documented disk entry root := by
  have overhead : 0 < OVERHEAD_BYTES := by decide
  unfold documented
  dsimp only
  cases modelBytes disk entry root <;> exact Nat.lt_of_lt_of_le overhead (Nat.le_add_left _ _)

omit there in
/-- A derived figure is a number of 32 bits, and greater than zero. -/
theorem derived_positive {derived : Derived} (is : derive capacity disk entry root = some (.ok derived)) :
    0 < derived.mib ∧ derived.mib < 2 ^ 32 := by
  obtain ⟨there,_⟩ := (derive_ok_iff tokens).mp ⟨derived,is⟩
  obtain ⟨size,there⟩ := Option.isSome_iff_exists.mp there
  obtain ⟨_,same⟩ := (derive_eq_some_iff tokens there).mp is
  cases same
  exact inMebibytes_positive documented_positive

/-- The estimate is the documented total in whole mebibytes, saturated, exactly
    where the figures of the entry are in range. -/
theorem estimate_iff : (∃ basis, derive capacity disk entry root =
      some (.ok ⟨min (2 ^ 32 - 1) (documented disk entry root ⌈/⌉ 2 ^ 20),basis⟩)) ↔ InRange disk entry root capacity := by
  rw [← inMebibytes_eq]
  constructor
  · rintro ⟨basis,is⟩
    exact ((derive_eq_some_iff tokens there).mp is).1
  · intro range
    refine ⟨basis disk entry root,?_⟩
    exact (derive_eq_some_iff tokens there).mpr ⟨range,rfl⟩

end Whole

/-! ## A file that is not read, and one that is not believable -/

/-- An entry with a model file and nothing else. -/
def entryM : Entry := ⟨"m","m.gguf",none,none,4096,.OnDemand,0,none,none,30,none,[]⟩

/-- A disk with one file, whatever the path. -/
def diskOf (content : Reading.File) : Disk := ⟨fun _ => some (.File content none)⟩

/-- What is no model file: its size is all there is to say. -/
def zip : Reading.File := ⟨[0x50,0x4B,0x03,0x04],by decide⟩

theorem zip_estimated : ∃ basis, derive 0 (diskOf zip) entryM [] =
    some (.ok ⟨min (2 ^ 32 - 1) (documented (diskOf zip) entryM [] ⌈/⌉ 2 ^ 20),basis⟩) := by
  have unread : (modelMetadata (diskOf zip) entryM []).isNone = true := by decide +kernel
  refine (estimate_iff (by decide) (rfl : (diskOf zip).size _ = some 4)).mpr ⟨by decide +kernel,?_,?_⟩
  · intro metadata is
    rw [is] at unread
    cases unread
  · intro metadata is
    cases is

/-- A model whose attention has more heads, and wider ones, than any has. -/
def huge : Reading.File :=
  ⟨Gguf.head 3 0 [("general.architecture",.Text "llama"),("llama.block_count",.Scalar .UINT64 1),
    ("llama.attention.head_count_kv",.Scalar .UINT64 (.allOnes _)),("llama.attention.key_length",.Scalar .UINT64 (.allOnes _))],
    by decide +kernel⟩

/-- Its estimate is not saturated: there is none. -/
theorem huge_unestimated : ¬ ∃ basis, derive (2 ^ 20) (diskOf huge) entryM [] =
    some (.ok ⟨min (2 ^ 32 - 1) (documented (diskOf huge) entryM [] ⌈/⌉ 2 ^ 20),basis⟩) := by
  have panics : (derive (2 ^ 20) (diskOf huge) entryM []).isNone = true := by decide +kernel
  rintro ⟨basis,is⟩
  rw [is] at panics
  cases panics

end Maestro.Estimate
