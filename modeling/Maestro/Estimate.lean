import Maestro.Catalog
import Maestro.Checked
import Maestro.Disk

/-!
# What loading an entry is expected to cost

The estimate as it is derived: the sizes of the files, what their metadata says
of the cache, and what the flags say about the way an entry is served. No
answer is a panic: of arithmetic whose result does not fit, or of a vector too
long to be allocated.
-/
namespace Maestro.Estimate
open Gguf (Metadata)

def MIB : ℕ := 1024 * 1024

/-- The device context and compute buffers. -/
def OVERHEAD_BYTES : ℕ := 1024 * MIB

/-! ## The flags -/

section Flags
variable (flags : List (String × String))

/-- The value under the first of these names that is there. -/
def flag (names : List String) : Option String := names.findSome? fun name => flags.lookup name

/-- Whether the entry is served in a way that keeps no key-value cache. -/
def keepsNoCache : Bool :=
  (flag flags ["embeddings","embedding","reranking","rerank"]).any fun value =>
    let value := String.ofList (Text.toAsciiLowercase (Text.trim value.toList))
    !(value = "false" || value = "0")

/-- Whether the entry keeps every layer on the processor. -/
def runsOnProcessor : Bool :=
  (flag flags ["n-gpu-layers","gpu-layers","ngl"]).any fun value => Text.trimString value = "0"

/-- Whether the draft is a prediction head rather than a model of its own. -/
def predictsTokens : Bool :=
  (flag flags ["spec-type","speculative-type"]).any fun spelling =>
    Text.contains (Text.toAsciiLowercase (Text.trim spelling.toList)) "mtp".toList

def F16 : ℕ := 32

def F32 : ℕ := 64

def Q8_0 : ℕ := 17

def Q4_0 : ℕ := 9

/-- The bytes per cached element the flags ask for, in sixteenths. -/
def sixteenths (names : List String) : ℕ :=
  match (flag flags names).getD "f16" with
  | "f32" => F32
  | "q8_0" => Q8_0
  | "q4_0" => Q4_0
  | _ => F16

end Flags

/-! ## The cache -/

section Cache
variable (metadata : Metadata)

/-- How many of a model's layers keep a key-value cache. -/
def cachingLayers : Option ℕ :=
  (metadata.ofModel "block_count").map fun layers =>
    match metadata.ofModel "full_attention_interval" with
    | some interval => if interval > 1 then layers / interval else layers
    | none => layers

/-- What the metadata says of the attention. -/
structure Shape where
  layers : ℕ
  kvHeads : ℕ
  keyLength : ℕ
  valueLength : ℕ
deriving DecidableEq, Repr

/-- A missing key length is the embedding width shared out among the heads. -/
def keyLength (heads : Option ℕ) : Option ℕ :=
  match metadata.ofModel "attention.key_length" with
  | some length => some length
  | none => do
    let embedding ← metadata.ofModel "embedding_length"
    let heads ← heads
    if heads = 0 then none else some (embedding / heads)

/-- The shape of the attention, where the metadata says enough. -/
def shape : Option Shape := do
  let layers ← cachingLayers metadata
  let heads := metadata.ofModel "attention.head_count"
  let kvHeads ← (metadata.ofModel "attention.head_count_kv").or heads
  let keyLength ← keyLength metadata heads
  let valueLength := (metadata.ofModel "attention.value_length").getD keyLength
  return ⟨layers,kvHeads,keyLength,valueLength⟩

/-- Architectures that window at a known interval without saying where. -/
def KNOWN : List (String × ℕ) := [("gemma3",6)]

/-- The interval of such an architecture and its layers. -/
def assumes : Option (ℕ × ℕ) := do
  let architecture ← metadata.architecture
  let interval ← KNOWN.lookup architecture
  let layers ← metadata.ofModel "block_count"
  return (interval,layers)

/-- One full layer at the end of each interval, the others sliding. -/
def placed (interval layers : ℕ) : List ℕ := (List.range layers).map fun layer => if layer % interval ≠ interval - 1 then 1 else 0

variable (capacity context keys values : ℕ)

/-- Which layers slide, where the metadata does not say; `capacity` is how long
    a vector of layers can be. -/
def assumedPattern : Option (Option (List ℕ)) :=
  match assumes metadata with
  | none => some none
  | some (interval,layers) => if layers ≤ capacity then some (some (placed interval layers)) else none

/-- How a layer of a windowed model is sized: its span, its heads, and its key
    and value lengths. -/
structure Layer where
  span : ℕ
  heads : ℕ
  key : ℕ
  value : ℕ
deriving DecidableEq, Repr

/-- The layer at an index, by whether it slides. -/
def layerAt (shape : Shape) (window : ℕ) (slides layer : ℕ) : Layer :=
  let swaKeys := (metadata.ofModel "attention.key_length_swa").getD shape.keyLength
  let swaValues := (metadata.ofModel "attention.value_length_swa").getD swaKeys
  let heads := ((metadata.perLayer "attention.head_count_kv").bind fun counts => counts[layer]?).getD shape.kvHeads
  if slides = 0 then ⟨context,heads,shape.keyLength,shape.valueLength⟩ else ⟨min context window,heads,swaKeys,swaValues⟩

/-- The cost of one token in one layer, in sixteenths of a byte. -/
def perToken (heads key value : ℕ) : Option ℕ := do
  let keyCost ← Checked.mul 128 key keys
  let valueCost ← Checked.mul 128 value values
  Checked.mul 128 heads (← Checked.add 128 keyCost valueCost)

/-- The cost of one layer of a windowed model. -/
def layerCost (layer : Layer) : Option ℕ := do
  let spanned ← Checked.mul 128 layer.span layer.heads
  let keyCost ← Checked.mul 128 layer.key keys
  let valueCost ← Checked.mul 128 layer.value values
  Checked.mul 128 spanned (← Checked.add 128 keyCost valueCost)

/-- Keys and values for every layer at this context, when the metadata says
    enough to work it out. -/
def cacheBytes : Option (Option ℕ) :=
  match shape metadata with
  | none => some none
  | some shape => do
    let assumed ← assumedPattern metadata capacity
    match (metadata.perLayer "attention.sliding_window_pattern").or assumed,metadata.ofModel "attention.sliding_window" with
    | some pattern,some window =>
      let total ← pattern.zipIdx.foldlM (fun total (slides,layer) => do
        Checked.add 128 total (← layerCost keys values (layerAt metadata context shape window slides layer))) 0
      return some (total / 16)
    | _,_ =>
      let perToken ← perToken keys values shape.kvHeads shape.keyLength shape.valueLength
      let tokens ← Checked.mul 128 shape.layers context
      return some ((← Checked.mul 128 tokens perToken) / 16)

end Cache

/-! ## The files -/

/-- One shard's place in a split model. -/
structure Shard where
  stem : List Char
  index : ℕ
  total : List Char
  extension : List Char
deriving DecidableEq, Repr

/-- Reads a shard suffix off a file name, if it carries one. -/
def shardOf (name : List Char) : Option Shard := do
  let (rest,extension) ← Text.rsplitOnce ['.'] name
  let (head,total) ← Text.rsplitOnce "-of-".toList rest
  let (stem,index) ← Text.rsplitOnce ['-'] head
  if total.isEmpty || !total.all Char.isDigit then none
  else if index.length ≠ total.length || !index.all Char.isDigit then none
  else return ⟨stem,← Text.parseUnsigned 64 index,total,extension⟩

/-- A number with zeros in front, where it is shorter than a width. -/
def padded (width n : ℕ) : List Char :=
  let digits := Nat.toDigits 10 n
  List.replicate (width - digits.length) '0' ++ digits

/-- The path of another shard of the same model, beside this one. -/
def Shard.sibling (self : Shard) (model : OsStr) (index : ℕ) : OsStr :=
  Path.withFileName model (Utf8.encode (self.stem ++ '-' :: padded self.total.length index ++ "-of-".toList ++ self.total ++
    '.' :: self.extension))

example : (shardOf "Big-Model-00002-of-00004.gguf".toList).map (fun shard => (shard.index,
    shard.sibling (Utf8.encode "x/Big-Model-00002-of-00004.gguf".toList) 4)) =
      some (2,Utf8.encode "x/Big-Model-00004-of-00004.gguf".toList) := by decide +kernel

section Files
variable (disk : Disk)

/-- The sizes of the other shards of a model, as far as they are there. -/
def siblingSizes (model : OsStr) (metadata : Option Metadata) : List ℕ :=
  let shards := (metadata.bind Metadata.splitCount).getD 1
  match ((Path.fileName model).bind Path.toStr).bind fun name => shardOf name.toList with
  | none => []
  | some shard => ((List.range' 1 shards).filter (· ≠ shard.index)).map fun index =>
      (disk.size (shard.sibling model index)).getD 0

/-- The size of the model file, plus every other shard when it is split. -/
def weightsOf (model : OsStr) (metadata : Option Metadata) : Option (Except String ℕ) :=
  match disk.size model with
  | none => some (.error s!"no model file at '{Path.display model}'")
  | some size => ((siblingSizes disk model metadata).foldlM (Checked.add 64) size).map .ok

end Files

/-! ## The estimate -/

/-- What the figure was worked out from. -/
inductive Basis
  | Metadata
  | Size
deriving DecidableEq, Repr

/-- A derived estimate, and what it rests on. -/
structure Derived where
  mib : ℕ
  basis : Basis
deriving DecidableEq, Repr

section Derive
variable (capacity : ℕ) (disk : Disk) (entry : Entry) (root : OsStr)

/-- Where a location of the entry is. -/
def resolve (location : String) : OsStr := Path.join root (Gguf.textBytes location)

/-- The cache a draft keeps of its own. -/
def draftCache (draft : OsStr) : Option ℕ :=
  if predictsTokens entry.flags then some 0
  else match Metadata.read disk draft with
    | .error _ => some 0
    | .ok metadata => do
      let keys := sixteenths entry.flags ["ctkd","cache-type-k-draft"]
      let values := sixteenths entry.flags ["ctvd","cache-type-v-draft"]
      let bytes ← cacheBytes metadata capacity entry.contextSize keys values
      Checked.add 128 0 (bytes.getD 0)

/-- What the model's own cache takes, when its metadata says. -/
def modelCache (metadata : Option Metadata) : Option (Option ℕ) :=
  match metadata with
  | none => some none
  | some metadata =>
    let keys := sixteenths entry.flags ["ctk","cache-type-k"]
    let values := sixteenths entry.flags ["ctv","cache-type-v"]
    cacheBytes metadata capacity entry.contextSize keys values

/-- The sum of the terms, by whether the model's cache is known. -/
def sumOf (weights cache : ℕ) (modelCache : Option ℕ) : Option (ℕ × Basis) :=
  match modelCache with
  | some modelCache => do
    let own := if keepsNoCache entry.flags || runsOnProcessor entry.flags then 0 else modelCache
    let bytes ← Checked.add 128 weights own
    let bytes ← Checked.add 128 bytes cache
    let fragmentation ← Checked.mul 128 weights 5
    let bytes ← Checked.add 128 bytes (fragmentation / 100)
    return (← Checked.add 128 bytes OVERHEAD_BYTES,.Metadata)
  | none => do
    let bytes ← Checked.add 128 weights (weights / 4)
    return (← Checked.add 128 bytes OVERHEAD_BYTES,.Size)

/-- The weights with the draft's among them, and the draft's cache. -/
def withDraft (weights : ℕ) : Option (ℕ × ℕ) :=
  match entry.draftPath with
  | none => some (weights,0)
  | some draft => do
    let draft := resolve root draft
    let weights ← Checked.add 64 weights ((disk.size draft).getD 0)
    return (weights,← draftCache capacity disk entry draft)

/-- The weights with the projector's among them. -/
def withProjector (weights : ℕ) : Option ℕ :=
  match entry.projectorPath with
  | none => some weights
  | some projector => Checked.add 64 weights ((disk.size (resolve root projector)).getD 0)

/-- The figure of an estimate, in whole mebibytes. -/
def inMebibytes (bytes : ℕ) : ℕ := min ((bytes + (MIB - 1)) / MIB) (2 ^ 32 - 1)

/-- Derives the estimate for one entry from the files under `root`. -/
def derive : Option (Except String Derived) :=
  let model := resolve root entry.path
  let metadata := (Metadata.read disk model).toOption
  match weightsOf disk model metadata with
  | none => none
  | some (.error reason) => some (.error reason)
  | some (.ok weights) => do
    let (weights,cache) ← withDraft capacity disk entry root weights
    let weights ← withProjector disk entry root weights
    let cache := if runsOnProcessor entry.flags then 0 else cache
    let weights := if runsOnProcessor entry.flags then 0 else weights
    let (bytes,basis) ← sumOf entry weights cache (← modelCache capacity entry metadata)
    return .ok ⟨inMebibytes bytes,basis⟩

end Derive
end Maestro.Estimate
