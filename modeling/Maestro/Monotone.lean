import Maestro.EstimateExact
import Maestro.Keyed
import Maestro.Paths
import Maestro.Shards

/-!
# What never lowers an estimate

More context, larger files and wider elements of a cache: each term of the sum
grows with them, and what the sum rests on stays what it was.
-/
namespace Maestro.Estimate
open Gguf (Metadata)

/-! ## The cache -/

section Cache
variable {context context' keys keys' values values' : ℕ} (longer : context ≤ context') (keys_wider : keys ≤ keys')
  (values_wider : values ≤ values')
include longer keys_wider values_wider

theorem layer_cost_mono (metadata : Metadata) (shape : Shape) (window slides layer : ℕ) :
    (layerAt metadata context shape window slides layer).cost keys values ≤
      (layerAt metadata context' shape window slides layer).cost keys' values' := by
  unfold layerAt Layer.cost
  dsimp only
  split_ifs
  · dsimp only
    gcongr
  · dsimp only
    gcongr

/-- The cache of a model grows with its context and with what an element of it
    takes, and is known where it was. -/
theorem cacheSixteenths_mono {metadata : Metadata} {bytes : ℕ} (is : cacheSixteenths metadata context keys values = some bytes) :
    ∃ bytes', cacheSixteenths metadata context' keys' values' = some bytes' ∧ bytes ≤ bytes' := by
  unfold cacheSixteenths at is
  obtain ⟨of,shape_is,rfl⟩ := Option.map_eq_some_iff.mp is
  refine ⟨_,cacheSixteenths_of_shape shape_is,?_⟩
  cases windows metadata with
  | none =>
    dsimp only
    unfold Shape.tokenCost
    gcongr
  | some windows =>
    obtain ⟨pattern,window⟩ := windows
    dsimp only
    rw [windowed,windowed,List.map_map,List.map_map]
    exact List.sum_le_sum fun at_index _ =>
      layer_cost_mono longer keys_wider values_wider metadata of window at_index.1 at_index.2

end Cache

theorem cacheSixteenths_isSome (metadata : Metadata) (context keys values : ℕ) :
    (cacheSixteenths metadata context keys values).isSome = (shape metadata).isSome := Option.isSome_map

/-! ## The flags -/

/-- The flags that name the type of a cache, each in its two spellings. -/
def CACHE_TYPES : List (List String) :=
  [["ctk","cache-type-k"],["ctv","cache-type-v"],["ctkd","cache-type-k-draft"],["ctvd","cache-type-v-draft"]]

/-- What an element of a cache takes, by the spelling of its type, in sixteenths
    of a byte. -/
def width (spelling : String) : ℕ :=
  match spelling with
  | "f32" => F32
  | "q8_0" => Q8_0
  | "q4_0" => Q4_0
  | _ => F16

theorem sixteenths_eq (flags : List (String × String)) (names : List String) :
    sixteenths flags names = width ((flag flags names).getD "f16") := rfl

/-- The one entry asks for no less context and for no narrower elements than the
    other, and for the same otherwise, as far as an estimate asks. -/
structure Wider (entry entry' : Entry) : Prop where
  path : entry'.path = entry.path
  draft : entry'.draftPath = entry.draftPath
  projector : entry'.projectorPath = entry.projectorPath
  context : entry.contextSize ≤ entry'.contextSize
  flags : ∀ key ∉ CACHE_TYPES.flatten, entry'.flags.lookup key = entry.flags.lookup key
  types : ∀ names ∈ CACHE_TYPES, sixteenths entry.flags names ≤ sixteenths entry'.flags names

theorem Wider.longer {entry : Entry} {context : ℕ} (longer : entry.contextSize ≤ context) :
    Wider entry { entry with contextSize := context } :=
  ⟨rfl,rfl,rfl,longer,fun _ _ => rfl,fun _ _ => Nat.le_refl _⟩

/-- To replace a type by one that takes no less is to ask for wider elements. -/
theorem Wider.replaced {entry : Entry} {names : List String} (known : names ∈ CACHE_TYPES) {key old new : String}
    (named : key ∈ names) (is : entry.flags.lookup key = some old) (more : width old ≤ width new) :
    Wider entry { entry with flags := Keyed.insert key new entry.flags } := by
  refine ⟨rfl,rfl,rfl,Nat.le_refl _,?_,?_⟩
  · intro other elsewhere
    have different : other ≠ key := by
      rintro rfl
      exact elsewhere (List.mem_flatten.mpr ⟨names,known,named⟩)
    exact (Keyed.lookup_insert entry.flags key other new).trans (if_neg different)
  · rintro others -
    rw [sixteenths_eq,sixteenths_eq]
    unfold flag
    induction others with
    | nil => exact Nat.le_refl _
    | cons first others ih =>
      rw [List.findSome?_cons,List.findSome?_cons,Keyed.lookup_insert]
      by_cases same : first = key
      · subst same
        rw [if_pos rfl,is]
        exact more
      · rw [if_neg same]
        cases entry.flags.lookup first with
        | none => exact ih
        | some found => exact Nat.le_refl _

section Flags
variable {entry entry' : Entry} (wider : Wider entry entry')
include wider

theorem Wider.flag_eq {names : List String} (others : ∀ name ∈ names, name ∉ CACHE_TYPES.flatten) :
    flag entry'.flags names = flag entry.flags names := by
  unfold flag
  induction names with
  | nil => rfl
  | cons first names ih =>
    rw [List.findSome?_cons,List.findSome?_cons,wider.flags first (others first List.mem_cons_self),
      ih fun name inside => others name (List.mem_cons_of_mem _ inside)]

/-- Both are served alike. -/
theorem Wider.served : keepsNoCache entry'.flags = keepsNoCache entry.flags ∧
    runsOnProcessor entry'.flags = runsOnProcessor entry.flags ∧ predictsTokens entry'.flags = predictsTokens entry.flags := by
  unfold keepsNoCache runsOnProcessor predictsTokens
  rw [wider.flag_eq (by decide),wider.flag_eq (by decide),wider.flag_eq (by decide)]
  exact ⟨rfl,rfl,rfl⟩

end Flags

/-! ## The files -/

/-- What is there is there no smaller. -/
def NoLess (size size' : Option ℕ) : Prop := ∀ n ∈ size, ∃ n' ∈ size', n ≤ n'

theorem NoLess.getD {size size' : Option ℕ} (noLess : NoLess size size') : size.getD 0 ≤ size'.getD 0 := by
  cases size with
  | none => exact Nat.zero_le _
  | some n =>
    obtain ⟨n',is,le⟩ := noLess n rfl
    rw [Option.mem_def.mp is]
    exact le

section Files
variable (disk : Disk) (root : OsStr) (disk' : Disk) (root' : OsStr) (entry : Entry)

/-- Under a second root the files an entry comes to say the same of themselves,
    and are no smaller: its model with the shards beside it, its draft and its
    projector. Where the location of the model ends in no name, there is no file. -/
structure Grown : Prop where
  metadata : ∀ location ∈ entry.path :: entry.draftPath.toList,
    (Metadata.read disk (resolve root location)).toOption = (Metadata.read disk' (resolve root' location)).toOption
  sizes : ∀ location ∈ entry.path :: (entry.draftPath.toList ++ entry.projectorPath.toList),
    NoLess (disk.size (resolve root location)) (disk'.size (resolve root' location))
  shards : ∀ shard index, shardAt (resolve root entry.path) = some shard →
    NoLess (disk.size (shard.sibling (resolve root entry.path) index)) (disk'.size (shard.sibling (resolve root' entry.path) index))
  unnamed : Path.fileName (Gguf.textBytes entry.path) = none → disk.size (resolve root entry.path) = none

/-- The estimate in exact arithmetic, of an entry whose model file is there. -/
def exactly : Option (ℕ × Basis) :=
  (disk.size (resolve root entry.path)).map fun _ => (documented disk entry root ⌈/⌉ 2 ^ 20,basis disk entry root)

variable {disk root disk' root' entry}

/-- A derived figure is the exact one, saturated. -/
theorem derive_exactly {capacity : ℕ} (tokens : entry.contextSize < 2 ^ 32) {derived : Derived}
    (is : derive capacity disk entry root = some (.ok derived)) :
    ∃ mib, exactly disk root entry = some (mib,derived.basis) ∧ derived.mib = min (2 ^ 32 - 1) mib := by
  obtain ⟨there,_⟩ := (derive_ok_iff tokens).mp ⟨derived,is⟩
  obtain ⟨size,there⟩ := Option.isSome_iff_exists.mp there
  obtain ⟨_,same⟩ := (derive_eq_some_iff tokens there).mp is
  cases same
  refine ⟨documented disk entry root ⌈/⌉ 2 ^ 20,?_,inMebibytes_eq _⟩
  rw [exactly,there]
  rfl

variable (grown : Grown disk root disk' root' entry)
include grown

/-- A model that is there has the same place among its shards under both roots. -/
theorem Grown.shardAt_eq {size : ℕ} (there : disk.size (resolve root entry.path) = some size) :
    shardAt (resolve root' entry.path) = shardAt (resolve root entry.path) := by
  cases named : Path.fileName (Gguf.textBytes entry.path) with
  | none =>
    rw [grown.unnamed named] at there
    cases there
  | some name => rw [shardAt,shardAt,resolve,resolve,Path.fileName_join named,Path.fileName_join named]

theorem Grown.model : modelMetadata disk' entry root' = modelMetadata disk entry root :=
  (grown.metadata entry.path List.mem_cons_self).symm

/-- The shards beside the model are no smaller. -/
theorem Grown.siblings {size : ℕ} (there : disk.size (resolve root entry.path) = some size) :
    (siblingSizes disk (resolve root entry.path) (modelMetadata disk entry root)).sum ≤
      (siblingSizes disk' (resolve root' entry.path) (modelMetadata disk' entry root')).sum := by
  cases is : shardAt (resolve root entry.path) with
  | none =>
    have none_beside := siblingSizes_length disk (resolve root entry.path) (modelMetadata disk entry root)
    rw [is] at none_beside
    rw [List.length_eq_zero_iff.mp none_beside]
    exact Nat.zero_le _
  | some shard =>
    rw [siblingSizes_eq is,siblingSizes_eq ((grown.shardAt_eq there).trans is),grown.model]
    refine List.sum_le_sum fun index inside => ?_
    have other : index ≠ shard.index := by simpa using (List.mem_filter.mp inside).2
    rw [Shard.weight,Shard.weight,Shard.file,Shard.file,if_neg other,if_neg other]
    exact (grown.shards shard index is).getD

theorem Grown.further {location : Option String}
    (named : ∀ place ∈ location, place ∈ entry.draftPath.toList ++ entry.projectorPath.toList) :
    furtherSize disk root location ≤ furtherSize disk' root' location := by
  cases location with
  | none => exact Nat.le_refl _
  | some place => exact (grown.sizes place (List.mem_cons_of_mem _ (named place rfl))).getD

end Files

/-! ## The sum -/

section Whole
variable {disk disk' : Disk} {root root' : OsStr} {entry entry' : Entry} (grown : Grown disk root disk' root' entry)
  (wider : Wider entry entry')
include grown wider

theorem weightBytes_mono {size : ℕ} (there : disk.size (resolve root entry.path) = some size) :
    weightBytes disk entry root ≤ weightBytes disk' entry' root' := by
  have model : modelMetadata disk' entry' root' = modelMetadata disk' entry root' := by
    rw [modelMetadata,modelMetadata,wider.path]
  unfold weightBytes
  rw [wider.path,wider.draft,wider.projector,model]
  have own := (grown.sizes entry.path List.mem_cons_self).getD
  have siblings := grown.siblings there
  have draft : furtherSize disk root entry.draftPath ≤ furtherSize disk' root' entry.draftPath :=
    grown.further fun place is => by simp [Option.mem_def.mp is]
  have projector : furtherSize disk root entry.projectorPath ≤ furtherSize disk' root' entry.projectorPath :=
    grown.further fun place is => by simp [Option.mem_def.mp is]
  omega

/-- The cache of the model grows, and is known where it was. -/
theorem modelBytes_mono : (∀ bytes, modelBytes disk entry root = some bytes →
      ∃ bytes', modelBytes disk' entry' root' = some bytes' ∧ bytes ≤ bytes') ∧
    (modelBytes disk' entry' root').isSome = (modelBytes disk entry root).isSome := by
  have model : modelMetadata disk' entry' root' = modelMetadata disk entry root := by
    rw [modelMetadata,wider.path]
    exact grown.model
  unfold modelBytes
  rw [model]
  cases modelMetadata disk entry root with
  | none => simp
  | some metadata =>
    rw [Option.bind_some,Option.bind_some]
    constructor
    · intro bytes is
      obtain ⟨total,total_is,rfl⟩ := Option.map_eq_some_iff.mp is
      obtain ⟨total',total_is',more⟩ := cacheSixteenths_mono wider.context (wider.types _ (by decide)) (wider.types _ (by decide)) total_is
      rw [total_is']
      exact ⟨total' / 16,rfl,Nat.div_le_div_right more⟩
    · rw [Option.isSome_map,Option.isSome_map,cacheSixteenths_isSome,cacheSixteenths_isSome]

theorem draftBytes_mono : draftBytes disk entry root ≤ draftBytes disk' entry' root' := by
  have draft : draftMetadata disk' entry' root' = draftMetadata disk entry root := by
    unfold draftMetadata
    rw [wider.served.2.2,wider.draft]
    split_ifs
    · rfl
    · cases is : entry.draftPath with
      | none => rfl
      | some location => exact (grown.metadata location (by simp [is])).symm
  unfold draftBytes
  rw [draft]
  cases draftMetadata disk entry root with
  | none => exact Nat.le_refl _
  | some metadata =>
    rw [Option.bind_some,Option.bind_some]
    cases is : cacheSixteenths metadata entry.contextSize (sixteenths entry.flags ["ctkd","cache-type-k-draft"])
        (sixteenths entry.flags ["ctvd","cache-type-v-draft"]) with
    | none => exact Nat.zero_le _
    | some total =>
      obtain ⟨total',is',more⟩ := cacheSixteenths_mono wider.context (wider.types _ (by decide)) (wider.types _ (by decide)) is
      rw [is']
      exact Nat.div_le_div_right more

omit grown in
theorem Wider.onDevice_mono {bytes bytes' : ℕ} (more : bytes ≤ bytes') : onDevice entry bytes ≤ onDevice entry' bytes' := by
  unfold onDevice
  rw [wider.served.2.1]
  split_ifs
  · exact Nat.le_refl _
  · exact more

omit grown in
theorem Wider.kept_mono {bytes bytes' : ℕ} (more : bytes ≤ bytes') : kept entry bytes ≤ kept entry' bytes' := by
  unfold kept
  rw [wider.served.1,wider.served.2.1]
  split_ifs
  · exact Nat.le_refl _
  · exact more

/-- Each term of the sum grows. -/
theorem documented_mono {size : ℕ} (there : disk.size (resolve root entry.path) = some size) :
    documented disk entry root ≤ documented disk' entry' root' := by
  have weights := wider.onDevice_mono (weightBytes_mono grown wider there)
  have draft := wider.onDevice_mono (draftBytes_mono grown wider)
  obtain ⟨more,known⟩ := modelBytes_mono grown wider
  rw [documented_eq,documented_eq]
  cases is : modelBytes disk entry root with
  | none =>
    rw [is,Option.isSome_none,Option.isSome_eq_false_iff,Option.isNone_iff_eq_none] at known
    rw [known]
    dsimp only
    gcongr
  | some bytes =>
    obtain ⟨bytes',is',larger⟩ := more bytes is
    have own := wider.kept_mono larger
    rw [is']
    dsimp only
    gcongr

theorem exactly_mono {mib : ℕ} {basis : Basis} (is : exactly disk root entry = some (mib,basis)) :
    ∃ mib', exactly disk' root' entry' = some (mib',basis) ∧ mib ≤ mib' := by
  obtain ⟨size,there,same⟩ := Option.map_eq_some_iff.mp is
  cases same
  obtain ⟨size',there',_⟩ := grown.sizes entry.path List.mem_cons_self size there
  rw [← wider.path] at there'
  refine ⟨documented disk' entry' root' ⌈/⌉ 2 ^ 20,?_,?_⟩
  · rw [exactly,Option.mem_def.mp there']
    simp only [Option.map_some,Option.some.injEq,Prod.mk.injEq,true_and]
    rw [Estimate.basis,Estimate.basis,(modelBytes_mono grown wider).2]
  · exact (gc_smul_ceilDiv (by decide : 0 < 2 ^ 20)).monotone_l (documented_mono grown wider there)

/-- More context, larger files and wider elements of a cache never lower the
    estimate, and it rests on what it did. -/
theorem estimate_monotone (tokens : entry'.contextSize < 2 ^ 32) :
    (∀ mib basis, exactly disk root entry = some (mib,basis) →
      ∃ mib', exactly disk' root' entry' = some (mib',basis) ∧ mib ≤ mib') ∧
    ∀ capacity capacity' derived derived', derive capacity disk entry root = some (.ok derived) →
      derive capacity' disk' entry' root' = some (.ok derived') → derived.mib ≤ derived'.mib ∧ derived'.basis = derived.basis := by
  refine ⟨fun mib basis => exactly_mono grown wider,fun capacity capacity' derived derived' is is' => ?_⟩
  obtain ⟨mib,figure,figure_is⟩ := derive_exactly (Nat.lt_of_le_of_lt wider.context tokens) is
  obtain ⟨mib',figure',figure_is'⟩ := derive_exactly tokens is'
  obtain ⟨other,other_is,more⟩ := exactly_mono grown wider figure
  obtain ⟨rfl,same⟩ := Prod.mk.inj (Option.some.inj (figure'.symm.trans other_is))
  refine ⟨?_,same⟩
  rw [figure_is,figure_is']
  exact min_le_min_left _ more

end Whole

/-! ## A model with more tensors behind the same metadata -/

def layersM : List (String × Gguf.Value) :=
  [("general.architecture",.Text "m"),("m.block_count",.Scalar .UINT32 2),("m.attention.head_count_kv",.Scalar .UINT32 1),
    ("m.attention.key_length",.Scalar .UINT32 16)]

/-- Two files with this metadata, of which one is longer. -/
def shorter : Reading.File := ⟨Gguf.head 3 0 layersM ++ [0],by decide +kernel⟩

def longer : Reading.File := ⟨Gguf.head 3 0 layersM ++ [0,0],by decide +kernel⟩

theorem more_tensors_grown : Grown (diskOf shorter) [] (diskOf longer) [] entryM := by
  have reads (file : Reading.File) (is : Metadata.ofFile file = .ok (layersM.foldl Metadata.keep .empty)) (path : OsStr) :
      (Metadata.read (diskOf file) path).toOption = some (layersM.foldl Metadata.keep .empty) := by
    show ((Metadata.ofFile file).mapError _).toOption = _
    rw [is]
    rfl
  have first := reads shorter (Gguf.ofFile_is rfl (by decide +kernel))
  have second := reads longer (Gguf.ofFile_is rfl (by decide +kernel))
  have less : shorter.bytes.length ≤ longer.bytes.length := by decide +kernel
  have noLess (path path' : OsStr) : NoLess ((diskOf shorter).size path) ((diskOf longer).size path') := by
    intro size is
    obtain rfl : shorter.bytes.length = size := Option.some.inj is
    exact ⟨longer.bytes.length,rfl,less⟩
  refine ⟨fun location _ => ?_,fun location _ => noLess _ _,fun shard index _ => noLess _ _,fun unnamed => ?_⟩
  · rw [first,second]
  · exact absurd unnamed (by decide +kernel)

theorem more_tensors_estimated : ∃ mib', exactly (diskOf longer) [] { entryM with contextSize := 8192 } =
    some (mib',.Metadata) ∧ 1025 ≤ mib' :=
  (estimate_monotone more_tensors_grown (.longer (by decide)) (by decide)).1 1025 .Metadata (by decide +kernel)

end Maestro.Estimate
