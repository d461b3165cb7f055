import Maestro.Estimate
import Maestro.GgufWritten

/-!
# What a model file can cost

What is kept of a file is paid for by its bytes. Two of its numbers become the
lengths of other loops: how many layers a known architecture has, and how many
shards a model is split across.
-/
namespace Maestro.Gguf
open Reading

/-! ## What is kept -/

/-- The strings and elements kept at a key: the key itself in either table, the
    number, and the layers. -/
def Metadata.heldAt (self : Metadata) (key : String) : ℕ :=
  (self.numbers key).elim 0 (fun _ => 2) + (self.layers key).elim 0 fun elements => elements.length + 1

/-- The strings and elements kept at some keys, and the name. -/
def Metadata.held (keys : List String) (self : Metadata) : ℕ :=
  (keys.map self.heldAt).sum + self.architecture.elim 0 fun _ => 1

/-- Nothing is kept before anything is read. -/
theorem empty_held (keys : List String) : Metadata.empty.held keys = 0 := by
  unfold Metadata.held
  refine Nat.add_eq_zero_iff.mpr ⟨List.sum_eq_zero_iff.mpr fun n inside => ?_,rfl⟩
  obtain ⟨key,_,rfl⟩ := List.mem_map.mp inside
  rfl

section Held
variable {keys : List String} (nodup : keys.Nodup)
include nodup

/-- What is more at one key alone is more once. -/
theorem held_le {self self' : Metadata} (key : String) {more : ℕ} (named : self'.architecture = self.architecture)
    (here : self'.heldAt key ≤ self.heldAt key + more) (elsewhere : ∀ other, other ≠ key → self'.heldAt other = self.heldAt other) :
    self'.held keys ≤ self.held keys + more := by
  have sums : (keys.map self'.heldAt).sum ≤ (keys.map self.heldAt).sum + more := by
    induction keys with
    | nil => exact Nat.zero_le _
    | cons first keys ih =>
      obtain ⟨fresh,rest⟩ := List.nodup_cons.mp nodup
      rw [List.map_cons,List.sum_cons,List.map_cons,List.sum_cons]
      by_cases same : first = key
      · subst same
        have unchanged : keys.map self'.heldAt = keys.map self.heldAt := by
          refine List.map_congr_left fun other inside => elsewhere other ?_
          rintro rfl
          exact fresh inside
        rw [unchanged]
        omega
      · rw [elsewhere first same]
        have := ih rest
        omega
  unfold Metadata.held
  rw [named]
  omega

variable (self : Metadata)

theorem held_insertLayers (key : String) (kept : Option ℕ × List ℕ) :
    (self.insertLayers key kept).held keys ≤ self.held keys + (kept.2.length + 3) := by
  refine held_le nodup key rfl ?_ fun other apart => ?_
  · unfold Metadata.heldAt Metadata.insertLayers
    dsimp only
    cases kept.1 <;> split_ifs <;> simp <;> omega
  · have others := insertLayers_other self apart kept
    rw [Metadata.heldAt,others.1,others.2]
    rfl

theorem held_number (key : String) (number : ℕ) :
    Metadata.held keys { self with numbers := Function.update self.numbers key (some number) } ≤ self.held keys + 2 := by
  refine held_le nodup key rfl ?_ fun other apart => ?_
  · unfold Metadata.heldAt
    simp only [Function.update_self,Option.elim_some]
    omega
  · unfold Metadata.heldAt
    simp only [Function.update_of_ne apart]

omit nodup in
theorem held_named (keys : List String) (name : Option String) : Metadata.held keys { self with architecture := name } ≤ self.held keys + 1 := by
  have one : (name.elim 0 fun _ => 1) ≤ 1 := by cases name <;> simp
  have same : keys.map (Metadata.heldAt { self with architecture := name }) = keys.map self.heldAt := rfl
  unfold Metadata.held
  rw [same]
  dsimp only
  omega

/-! ## What it is paid for with -/

variable (start : ℕ)

omit nodup

theorem u32At_pays : Pays (fun _ => start + 4) start u32At := (exactly_pays _ 4).bind fun _ => Pays.pure (Nat.le_refl _)

theorem u64At_pays : Pays (fun _ => start + 8) start u64At := (exactly_pays _ 8).bind fun _ => Pays.pure (Nat.le_refl _)

theorem skip_pays (bytes : ℕ) : Pays (fun _ => start) start (skip bytes) := by
  unfold skip
  split_ifs
  · exact ahead_pays _ bytes
  · exact Pays.throws _

theorem textAt_pays (keep : ℕ) : Pays (fun _ => start + 8) start (textAt keep) := by
  unfold textAt
  refine (u64At_pays start).bind fun length => ?_
  split_ifs
  · exact (skip_pays _ length).bind fun _ => Pays.pure (Nat.le_refl _)
  · exact (exactly_pays _ length).bind fun _ => Pays.pure (Nat.le_add_right _ _)

/-- A scalar takes a byte at least. -/
theorem scalarAt_pays (kind : ℕ) : Pays (fun _ => start + 1) start (scalarAt kind) := by
  unfold scalarAt
  cases is : width kind with
  | error fault => exact Pays.throws fault
  | ok taken =>
    have one : 1 ≤ taken := by
      unfold width at is
      split at is <;> cases is <;> decide
    show Pays _ start (bytesAt taken >>= fun bytes => pure (unsigned kind (bytes ++ List.replicate (8 - taken) 0)))
    exact (exactly_pays _ taken).bind fun _ => Pays.pure (Nat.add_le_add_left one start)

/-- The layers read so far are no more than the bytes. -/
theorem layers_pay (kind count : ℕ) : Pays (fun kept => start + kept.2.length) start
    (times (fun kept => do return keepLayer kept (← scalarAt kind)) count (none,[])) := by
  have each (kept : Option ℕ × List ℕ) : Pays (fun kept => start + kept.2.length) (start + kept.2.length)
      (do return keepLayer kept (← scalarAt kind)) := by
    refine (scalarAt_pays _ kind).bind fun element => Pays.pure ?_
    have one : element.toList.length ≤ 1 := by cases element <;> simp
    unfold keepLayer
    dsimp only
    rw [List.length_append]
    omega
  exact times_pays each count (none,[])

include nodup

theorem array_pays (key : String) : Pays (Metadata.held keys) (self.held keys + 12) (self.array key) := by
  unfold Metadata.array
  refine (u32At_pays _).bind fun kind => (u64At_pays _).bind fun count => ?_
  have light : self.held keys ≤ self.held keys + 12 + 4 + 8 := by omega
  split_ifs
  · exact Pays.stops _ _
  · refine (layers_pay _ kind count).bind fun kept => Pays.pure ?_
    have more := held_insertLayers nodup self key kept
    omega
  · have passed : Pays (fun _ => self.held keys + 12 + 4 + 8) (self.held keys + 12 + 4 + 8)
        (times (fun () => do let _ ← textAt 0) count ()) :=
      times_pays (fun _ => (textAt_pays _ 0).bind fun _ => Pays.pure (Nat.le_add_right _ _)) count ()
    exact passed.bind fun _ => Pays.pure light
  · exact Pays.stops _ _
  · cases width kind with
    | error fault => exact Pays.throws fault
    | ok wide =>
      show Pays _ _ (if count * wide ≥ 2 ^ 64 then throw _ >>= fun _ => _ else _)
      split_ifs
      · exact Pays.stops _ _
      · exact (skip_pays _ _).bind fun _ => Pays.pure light

theorem value_pays (key : String) (kind : ℕ) : Pays (Metadata.held keys) (self.held keys + 12) (self.value key kind) := by
  unfold Metadata.value
  by_cases string : kind = STRING
  · rw [if_pos string]
    refine (textAt_pays _ _).bind fun name => Pays.pure ?_
    split_ifs
    · have more := held_named self keys name
      omega
    · omega
  rw [if_neg string]
  by_cases array : kind = ARRAY
  · rw [if_pos array]
    exact array_pays nodup self key
  rw [if_neg array]
  refine (scalarAt_pays _ kind).bind fun number => Pays.pure ?_
  split
  · have more := held_number nodup self key
    rename_i number _
    have := more number
    omega
  · omega

theorem pair_pays : Pays (Metadata.held keys) (self.held keys) self.pair := by
  unfold Metadata.pair
  refine (textAt_pays _ _).bind fun found => ?_
  cases found with
  | none => exact Pays.throws _
  | some key => exact (u32At_pays _).bind fun kind => value_pays nodup self key kind

theorem body_pays : Pays (Metadata.held keys) (self.held keys) self.body := by
  unfold Metadata.body
  refine (exactly_pays _ 4).bind fun magic => ?_
  split_ifs
  · exact Pays.stops _ _
  refine (u32At_pays _).bind fun version => ?_
  split_ifs
  swap
  · exact Pays.stops _ _
  refine (u64At_pays _).bind fun _ => (u64At_pays _).bind fun pairs => ?_
  split_ifs
  · exact Pays.stops _ _
  · exact (times_pays (fun self => pair_pays nodup self) pairs self).lighter (by omega)

end Held
end Maestro.Gguf

namespace Maestro.Estimate
open Gguf

/-! ## The loops over what a file says -/

/-- The larger of the file's length and the longest array of layers. -/
def backing (file : Reading.File) : ℕ := max file.bytes.length MAX_LAYER_ARRAY

/-- A model's shard, by its file's name. -/
def shardAt (model : OsStr) : Option Shard := ((Path.fileName model).bind Path.toStr).bind fun name => shardOf name.toList

/-- What is kept of a file, and at any point of reading it, the layers that its
    cache is sized by where they are assumed, and the shards that are looked for
    beside it are no more than what backs them. The cache comes to assume layers
    only once the metadata has told the shape of the attention. -/
structure BoundedWork (file : Reading.File) (model : OsStr) : Prop where
  read : ∀ metadata, Metadata.ofFile file = .ok metadata → ∀ keys : List String, keys.Nodup → metadata.held keys ≤ backing file
  kept : ∀ position pairs metadata after, Reading.times Metadata.pair pairs .empty ⟨file,position⟩ = .ok (metadata,after) →
    ∀ keys : List String, keys.Nodup → metadata.held keys ≤ backing file
  elements : ∀ position kind count kept after,
    Reading.times (fun kept => do return keepLayer kept (← scalarAt kind)) count (none,[]) ⟨file,position⟩ = .ok (kept,after) →
      kept.2.length ≤ backing file
  layers : ∀ metadata, Metadata.ofFile file = .ok metadata → (shape metadata).isSome → ∀ capacity pattern,
    assumedPattern metadata capacity = some (some pattern) → pattern.length ≤ backing file
  shards : ∀ disk, (siblingSizes disk model (Metadata.ofFile file).toOption).length ≤ backing file

/-- The two numbers of a file that are taken for the lengths of loops are backed:
    how many blocks the architecture has whose pattern is known, where the
    attention has a shape, and how many shards there are beside a file that is
    one of them. -/
structure Backed (file : Reading.File) (model : OsStr) : Prop where
  blocks : ∀ metadata layers, Metadata.ofFile file = .ok metadata → (shape metadata).isSome →
    metadata.architecture = some "gemma3" → metadata.ofModel "block_count" = some layers → layers ≤ backing file
  splits : ∀ metadata shard count, Metadata.ofFile file = .ok metadata → shardAt model = some shard →
    metadata.splitCount = some count → (if 1 ≤ shard.index ∧ shard.index ≤ count then count - 1 else count) ≤ backing file

/-- Without a shape the cache is not worked out, and no layers are assumed for
    it. -/
theorem cacheBytes_shapeless {metadata : Metadata} (shapeless : shape metadata = none) (capacity context keys values : ℕ) :
    cacheBytes metadata capacity context keys values = some none := by
  rw [cacheBytes,shapeless]

theorem assumes_iff {metadata : Metadata} {interval layers : ℕ} : assumes metadata = some (interval,layers) ↔
    metadata.architecture = some "gemma3" ∧ interval = 6 ∧ metadata.ofModel "block_count" = some layers := by
  unfold assumes KNOWN
  constructor
  · intro is
    obtain ⟨name,named,is⟩ := Option.bind_eq_some_iff.mp is
    obtain ⟨known,known_is,is⟩ := Option.bind_eq_some_iff.mp is
    obtain ⟨blocks,blocks_are,is⟩ := Option.bind_eq_some_iff.mp is
    cases is
    rw [List.lookup_cons] at known_is
    by_cases same : name = "gemma3"
    · subst same
      cases known_is
      exact ⟨named,rfl,blocks_are⟩
    · rw [beq_false_of_ne same] at known_is
      cases known_is
  · rintro ⟨named,rfl,blocks_are⟩
    rw [named,blocks_are]
    rfl

theorem mem_shards {index shards : ℕ} : index ∈ List.range' 1 shards ↔ 1 ≤ index ∧ index ≤ shards := by
  rw [List.mem_range'_1]
  omega

/-- The shards that are looked for are all but the model's own. -/
theorem siblings_eq_erase (index shards : ℕ) :
    (List.range' 1 shards).filter (· ≠ index) = (List.range' 1 shards).erase index := by
  have distinct : (List.range' 1 shards).Nodup := List.nodup_range'
  rw [distinct.erase_eq_filter]
  refine List.filter_congr fun other _ => ?_
  by_cases same : other = index <;> simp [same]

/-- How many shards are looked for: all but the model's own. -/
theorem siblings_length (index shards : ℕ) : ((List.range' 1 shards).filter (· ≠ index)).length =
    if 1 ≤ index ∧ index ≤ shards then shards - 1 else shards := by
  rw [siblings_eq_erase,List.length_erase]
  simp only [mem_shards,List.length_range']

theorem siblingSizes_length (disk : Disk) (model : OsStr) (metadata : Option Metadata) :
    (siblingSizes disk model metadata).length = match shardAt model with
      | none => 0
      | some shard =>
        let shards := (metadata.bind Metadata.splitCount).getD 1
        if 1 ≤ shard.index ∧ shard.index ≤ shards then shards - 1 else shards := by
  unfold siblingSizes shardAt
  cases ((Path.fileName model).bind Path.toStr).bind fun name => shardOf name.toList with
  | none => rfl
  | some shard =>
    dsimp only
    rw [List.length_map,siblings_length]

theorem placed_length (interval layers : ℕ) : (placed interval layers).length = layers := by
  rw [placed,List.length_map,List.length_range]

/-- Where the pattern is known and the vector can be had, as many layers are
    assumed as the file says it has. -/
theorem assumedPattern_whole {metadata : Metadata} {layers : ℕ} (named : metadata.architecture = some "gemma3")
    (blocks : metadata.ofModel "block_count" = some layers) : assumedPattern metadata layers = some (some (placed 6 layers)) := by
  rw [assumedPattern,assumes_iff.mpr ⟨named,rfl,blocks⟩]
  exact if_pos (Nat.le_refl _)

/-- So many and no others are assumed. -/
theorem assumedPattern_length {metadata : Metadata} {capacity : ℕ} {pattern : List ℕ}
    (assumed : assumedPattern metadata capacity = some (some pattern)) :
    metadata.architecture = some "gemma3" ∧ metadata.ofModel "block_count" = some pattern.length := by
  cases is : assumes metadata with
  | none =>
    rw [assumedPattern,is] at assumed
    cases assumed
  | some pair =>
    obtain ⟨interval,layers⟩ := pair
    obtain ⟨named,_,blocks⟩ := assumes_iff.mp is
    rw [assumedPattern,is] at assumed
    dsimp only at assumed
    split_ifs at assumed
    cases assumed
    rw [placed_length]
    exact ⟨named,blocks⟩

/-- A file buys no more work than backs it exactly where its two counts are
    backed. -/
theorem bounded_work_iff {file : Reading.File} {model : OsStr} : BoundedWork file model ↔ Backed file model := by
  have one : 1 ≤ backing file := le_max_of_le_right (by decide)
  constructor
  · intro bounded
    constructor
    · intro metadata layers reads shaped named blocks
      have length := bounded.layers metadata reads shaped layers _ (assumedPattern_whole named blocks)
      rwa [placed_length] at length
    · intro metadata shard count reads shard_is split
      have length := bounded.shards ⟨fun _ => none⟩
      rw [siblingSizes_length,reads,shard_is] at length
      simpa [Except.toOption,split] using length
  · intro backed
    constructor
    · intro metadata reads keys nodup
      obtain ⟨after,fills⟩ := ofFile_eq_ok.mp reads
      have light := (body_pays nodup .empty).bound (fill_eq_ok.mp fills).1
      rw [empty_held,Nat.zero_add] at light
      exact le_max_of_le_left light
    · intro position pairs metadata after reads keys nodup
      have light := (Reading.times_pays (fun self => pair_pays nodup self) pairs .empty).bound reads
      rw [empty_held,Nat.zero_add] at light
      exact le_max_of_le_left light
    · intro position kind count kept after reads
      have light := (layers_pay 0 kind count).bound reads
      rw [Nat.zero_add,Nat.zero_add] at light
      exact le_max_of_le_left light
    · intro metadata reads shaped capacity pattern assumed
      obtain ⟨named,blocks⟩ := assumedPattern_length assumed
      exact backed.blocks metadata pattern.length reads shaped named blocks
    · intro disk
      rw [siblingSizes_length]
      cases shard_is : shardAt model with
      | none => exact Nat.zero_le _
      | some shard =>
        dsimp only
        cases split : (Metadata.ofFile file).toOption.bind Metadata.splitCount with
        | none =>
          rw [Option.getD_none]
          split_ifs
          · exact Nat.zero_le _
          · exact one
        | some count =>
          obtain ⟨metadata,reads,counted⟩ := Option.bind_eq_some_iff.mp split
          exact backed.splits metadata shard count (Reading.toOption_eq_some.mp reads) shard_is counted

/-- A file of four pairs that says it has two million layers, each of one head. -/
def manyLayersM : List (String × Value) :=
  [("general.architecture",.Text "gemma3"),("gemma3.block_count",.Scalar .UINT32 2097152),
    ("gemma3.attention.head_count",.Scalar .UINT32 1),("gemma3.attention.key_length",.Scalar .UINT32 64)]

def fileG : Reading.File := ⟨head 3 0 manyLayersM,by decide +kernel⟩

/-- As many layers are assumed of it. -/
theorem unbacked_layers : ¬ BoundedWork fileG [0x6D] := by
  intro bounded
  have is : fileG.bytes = head 3 0 manyLayersM ++ [] := (List.append_nil _).symm
  have read := ofFile_is is (by decide +kernel)
  have shaped : (shape (manyLayersM.foldl Metadata.keep .empty)).isSome = true := by decide +kernel
  have blocks : (manyLayersM.foldl Metadata.keep .empty).ofModel "block_count" = some 2097152 := by decide +kernel
  have length := bounded.layers _ read shaped 2097152 _ (assumedPattern_whole rfl blocks)
  rw [placed_length] at length
  exact absurd length (by decide +kernel)

end Maestro.Estimate
