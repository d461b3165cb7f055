import Maestro.BoundedWork

/-!
# What the shards of a model weigh

The name of a shard says how many shards there are; how many of them are looked
for is a number in the metadata. What is weighed is what the name stands for
exactly where the shards over which the two differ make no difference.
-/
namespace Maestro.Estimate
open Gguf (Metadata)

/-! ## The files a name stands for -/

/-- The number is what it was, behind the zeros in front of it. -/
theorem ofDigitChars_padded (width n : ℕ) : Nat.ofDigitChars 10 (padded width n) 0 = n := by
  have zeros (k : ℕ) : Nat.ofDigitChars 10 (List.replicate k '0') 0 = 0 := by
    induction k with
    | zero => rfl
    | succ k ih =>
      rw [List.replicate_succ,Nat.ofDigitChars_cons]
      exact ih
  unfold padded
  dsimp only
  rw [Nat.ofDigitChars_append,zeros]
  exact Nat.ofDigitChars_ten_toDigits

theorem padded_injective (width : ℕ) : Function.Injective (padded width) := by
  intro i j same
  have values := congrArg (fun digits => Nat.ofDigitChars 10 digits 0) same
  simpa [ofDigitChars_padded] using values

namespace Shard
variable (self : Shard) (disk : Disk) (model : OsStr)

/-- How many shards the name says there are. -/
def count : ℕ := Nat.ofDigitChars 10 self.total 0

/-- The name of the file of a shard. -/
def name (index : ℕ) : List Char :=
  self.stem ++ '-' :: padded self.total.length index ++ "-of-".toList ++ self.total ++ '.' :: self.extension

theorem sibling_eq (index : ℕ) : self.sibling model index = Path.withFileName model (Utf8.encode (self.name index)) := rfl

theorem name_injective : Function.Injective self.name := by
  intro i j same
  simp only [name,List.append_assoc,List.cons_append,List.append_cancel_left_eq,List.cons.injEq,true_and,
    List.append_cancel_right_eq] at same
  exact padded_injective _ same

/-- Different indices are different files. -/
theorem sibling_injective : Function.Injective (self.sibling model) := by
  intro i j same
  rw [sibling_eq,sibling_eq] at same
  -- Both names begin alike, so both are put behind the same bytes, or neither is.
  have first (index : ℕ) : (Utf8.encode (self.name index)).head? = (Utf8.encode (self.stem ++ ['-'])).head? := by
    have begins : self.name index = (self.stem ++ ['-']) ++ (padded self.total.length index ++ "-of-".toList ++ self.total ++
        '.' :: self.extension) := by simp [name]
    rw [begins,Utf8.encode,List.flatMap_append,List.head?_append_of_ne_nil]
    · rfl
    · simp [Utf8.encodeChar_of_ascii]
  have joined (base : OsStr) (same : Path.join base (Utf8.encode (self.name i)) = Path.join base (Utf8.encode (self.name j))) :
      Utf8.encode (self.name i) = Utf8.encode (self.name j) := by
    unfold Path.join at same
    rw [first i,first j] at same
    split_ifs at same
    · exact same
    · exact List.append_cancel_left same
    · exact (List.cons.inj (List.append_cancel_left same)).2
  have encoded : Utf8.encode (self.name i) = Utf8.encode (self.name j) := by
    unfold Path.withFileName at same
    split_ifs at same
    · exact joined _ same
    · exact joined _ same
  have decoded := congrArg Utf8.decode encoded
  rw [Utf8.decode_encode,Utf8.decode_encode] at decoded
  exact self.name_injective (Option.some.inj decoded)

/-- The file of a shard: the model's own, or one beside it. -/
def file (index : ℕ) : OsStr := if index = self.index then model else self.sibling model index

/-- The size of the file of a shard, nothing where there is none. -/
def weight (index : ℕ) : ℕ := (disk.size (self.file model index)).getD 0

/-- What the shards behind an index and up to another weigh, but for the
    model's own. -/
def between (low high : ℕ) : ℕ :=
  (((List.range' (low + 1) (high - low)).filter (· ≠ self.index)).map (self.weight disk model)).sum

/-- The sizes of all the files the name stands for, one for each index. -/
def bytes : ℕ := ((List.range' 1 self.count).map (self.weight disk model)).sum

/-! ## What is weighed -/

variable {self disk model}

theorem between_of_le {low high : ℕ} (below : high ≤ low) : self.between disk model low high = 0 := by
  simp [between,Nat.sub_eq_zero_of_le below]

/-- A stretch of the shards weighs what its two parts do. -/
theorem between_add {low middle high : ℕ} (first : low ≤ middle) (second : middle ≤ high) :
    self.between disk model low high = self.between disk model low middle + self.between disk model middle high := by
  obtain ⟨m,rfl⟩ := Nat.exists_eq_add_of_le first
  obtain ⟨n,rfl⟩ := Nat.exists_eq_add_of_le second
  have parts : List.range' (low + 1) (m + n) = List.range' (low + 1) m ++ List.range' (low + m + 1) n := by
    rw [Nat.add_right_comm low m 1,List.range'_append_1]
  have whole : low + m + n - low = m + n := by omega
  have left : low + m - low = m := by omega
  have right : low + m + n - (low + m) = n := by omega
  rw [between,between,between,whole,left,right,parts,List.filter_append,List.map_append,List.sum_append]

/-- All the shards weigh what those beside the model do, and the model where its
    index is one of theirs. -/
theorem bytes_eq : self.bytes disk model = self.between disk model 0 self.count +
    if 1 ≤ self.index ∧ self.index ≤ self.count then self.weight disk model self.index else 0 := by
  rw [bytes,between,Nat.sub_zero,Nat.zero_add,siblings_eq_erase]
  split_ifs with inside
  · have moved := (List.perm_cons_erase (mem_shards.mpr inside)).map (self.weight disk model)
    rw [moved.sum_eq,List.map_cons,List.sum_cons,Nat.add_comm]
  · rw [List.erase_of_not_mem (fun there => inside (mem_shards.mp there))]
    rfl

end Shard

section Weights
variable (disk : Disk) (model : OsStr) (metadata : Option Metadata) (shard : Shard)

/-- How many shards the metadata says there are, one where it does not. -/
def splits : ℕ := (metadata.bind Metadata.splitCount).getD 1

/-- A model that is there weighs what all the files do that its name stands for,
    each counted once; only one that is not there fails. -/
structure WeighsOnce : Prop where
  sum : ∀ size, disk.size model = some size → weightsOf disk model metadata = some (.ok (shard.bytes disk model))
  fails : ∀ reason, weightsOf disk model metadata = some (.error reason) → disk.size model = none

/-- The shards that are named and not looked for weigh what those do that are
    looked for and not named, the model's own file among these where its index
    is none of its name's; and all that is weighed is a number of 64 bits. -/
structure Balanced : Prop where
  balance : shard.between disk model (splits metadata) shard.count = shard.between disk model shard.count (splits metadata) +
    if 1 ≤ shard.index ∧ shard.index ≤ shard.count then 0 else shard.weight disk model shard.index
  fits : shard.bytes disk model < 2 ^ 64

variable {disk model metadata shard} (is : shardAt model = some shard)
include is

/-- The shards looked for beside a model, one by one. -/
theorem siblingSizes_eq : siblingSizes disk model metadata =
    ((List.range' 1 (splits metadata)).filter (· ≠ shard.index)).map (shard.weight disk model) := by
  unfold shardAt at is
  simp only [siblingSizes,is]
  refine List.map_congr_left fun index inside => ?_
  have other : index ≠ shard.index := by simpa using (List.mem_filter.mp inside).2
  rw [Shard.weight,Shard.file,if_neg other]

theorem weightsOf_eq {size : ℕ} (there : disk.size model = some size) : weightsOf disk model metadata =
    if size + shard.between disk model 0 (splits metadata) < 2 ^ 64
    then some (.ok (size + shard.between disk model 0 (splits metadata))) else none := by
  have small : size < 2 ^ 64 := Nat.lt_trans (disk.size_small _ there) (by decide)
  unfold weightsOf
  rw [there,siblingSizes_eq is]
  dsimp only
  rw [Checked.foldlM_add 64 _ size small,Shard.between,Nat.sub_zero,Nat.zero_add]
  split_ifs <;> rfl

omit is in
/-- What is looked for weighs what is named exactly where the two balance. -/
theorem balance_iff {size : ℕ} (there : disk.size model = some size) :
    size + shard.between disk model 0 (splits metadata) = shard.bytes disk model ↔
      shard.between disk model (splits metadata) shard.count = shard.between disk model shard.count (splits metadata) +
        if 1 ≤ shard.index ∧ shard.index ≤ shard.count then 0 else shard.weight disk model shard.index := by
  have own : shard.weight disk model shard.index = size := by
    rw [Shard.weight,Shard.file,if_pos rfl,there]
    rfl
  rw [Shard.bytes_eq,own]
  rcases Nat.le_total (splits metadata) shard.count with fewer | more
  · have parts : shard.between disk model 0 shard.count =
        shard.between disk model 0 (splits metadata) + shard.between disk model (splits metadata) shard.count :=
      Shard.between_add (Nat.zero_le _) fewer
    have beyond : shard.between disk model shard.count (splits metadata) = 0 := Shard.between_of_le fewer
    split_ifs <;> omega
  · have parts : shard.between disk model 0 (splits metadata) =
        shard.between disk model 0 shard.count + shard.between disk model shard.count (splits metadata) :=
      Shard.between_add (Nat.zero_le _) more
    have left : shard.between disk model (splits metadata) shard.count = 0 := Shard.between_of_le more
    split_ifs <;> omega

/-- Every shard is weighed once exactly where what is looked for and what is
    named differ in nothing that weighs. -/
theorem weighs_once_iff : WeighsOnce disk model metadata shard ↔
    ((disk.size model).isSome → Balanced disk model metadata shard) := by
  cases there : disk.size model with
  | none =>
    refine iff_of_true ⟨fun size other => ?_,fun _ _ => there⟩ fun absent => ?_
    · rw [there] at other
      cases other
    · cases absent
  | some size =>
    have weighs : weightsOf disk model metadata = _ := weightsOf_eq is there
    constructor
    · rintro ⟨sum,_⟩ _
      have told := sum size there
      rw [weighs] at told
      split_ifs at told with fits
      have same : size + shard.between disk model 0 (splits metadata) = shard.bytes disk model := by
        simpa using told
      exact ⟨(balance_iff there).mp same,same ▸ fits⟩
    · intro balanced
      obtain ⟨balance,fits⟩ := balanced rfl
      have same := (balance_iff there).mpr balance
      constructor
      · intro _ _
        rw [weighs,same,if_pos fits]
      · intro reason told
        rw [weighs,same,if_pos fits] at told
        cases told

end Weights

/-! ## A model whose metadata says nothing of its shards -/

/-- Two files of a split model, of one and two bytes. -/
def splitDisk : Disk where
  node := fun path =>
    if path = Utf8.encode "m-1-of-2.gguf".toList then some (.File ⟨[0],by decide⟩ none)
    else if path = Utf8.encode "m-2-of-2.gguf".toList then some (.File ⟨[0,0],by decide⟩ none)
    else none

def shardM : Shard := ⟨['m'],1,['2'],"gguf".toList⟩

/-- Metadata that counts two shards. -/
def countedM : Metadata := { Metadata.empty with numbers := fun key => if key = "split.count" then some 2 else none }

theorem counted_shards_weighed : WeighsOnce splitDisk (Utf8.encode "m-1-of-2.gguf".toList) (some countedM) shardM :=
  (weighs_once_iff (by decide +kernel)).mpr fun _ => ⟨by decide +kernel,by decide +kernel⟩

/-- Where none can be read, the second shard is left out. -/
theorem unread_shard_left_out : ¬ WeighsOnce splitDisk (Utf8.encode "m-1-of-2.gguf".toList) none shardM := by
  intro once
  have told := once.sum 1 (by decide +kernel)
  exact absurd told (by decide +kernel)

end Maestro.Estimate
