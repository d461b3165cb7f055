import Maestro.Paths
import Maestro.Pieces
import Maestro.Shards

/-!
# The names of shards, read and written

A shard's name is read from its end, at separators that may be found in the stem
as well, and written from its parts. Either undoes the other.
-/
namespace Maestro.Estimate

/-! ## Numbers of one width -/

theorem padded_digits (width n : ℕ) : ∀ d ∈ padded width n, d.isDigit = true := by
  intro d member
  rcases List.mem_append.mp member with zero | digit
  · rw [List.eq_of_mem_replicate zero]
    rfl
  · exact Nat.isDigit_of_mem_toDigits (by decide) (by decide) digit

theorem padded_length {width n : ℕ} (short : (Nat.toDigits 10 n).length ≤ width) : (padded width n).length = width := by
  unfold padded
  dsimp only
  rw [List.length_append,List.length_replicate]
  omega

/-- Digits are the number they stand for, padded to as many. -/
theorem padded_of_digits {digits : List Char} (are : ∀ d ∈ digits, d.isDigit = true) (some_digit : digits ≠ []) :
    padded digits.length (Nat.ofDigitChars 10 digits 0) = digits := by
  have short : (Nat.toDigits 10 (Nat.ofDigitChars 10 digits 0)).length ≤ digits.length :=
    (Nat.length_toDigits_le_iff (by decide) (List.length_pos_iff.mpr some_digit)).mpr (Text.ofDigitChars_lt are)
  exact Text.digits_unique (padded_digits _ _) are (padded_length short) (ofDigitChars_padded _ _)

namespace Shard
variable (self : Shard)

/-! ## What a name is read as -/

/-- The name with given digits for the number of the shard. -/
def spelled (digits : List Char) : List Char :=
  self.stem ++ '-' :: digits ++ "-of-".toList ++ self.total ++ '.' :: self.extension

theorem name_eq (index : ℕ) : self.name index = self.spelled (padded self.total.length index) := rfl

end Shard

/-- Digits that the name of a shard has for its number. -/
structure Shard.Spells (s : Shard) (digits : List Char) : Prop where
  undotted : '.' ∉ s.extension
  total_digits : ∀ d ∈ s.total, d.isDigit = true
  some_total : s.total ≠ []
  are_digits : ∀ d ∈ digits, d.isDigit = true
  as_long : digits.length = s.total.length
  index_eq : s.index = Nat.ofDigitChars 10 digits 0
  fits : s.index < 2 ^ 64

theorem Shard.Spells.some_digits {s : Shard} {digits : List Char} (spells : s.Spells digits) : digits ≠ [] := by
  rintro rfl
  exact spells.some_total (List.length_eq_zero_iff.mp spells.as_long.symm)

theorem not_digit {c : Char} {s : List Char} (other : c.isDigit = false) (are : ∀ d ∈ s, d.isDigit = true) : c ∉ s := by
  intro member
  rw [are c member] at other
  cases other

theorem rsplitOnce_single {c : Char} {l r : List Char} (last : c ∉ r) : Text.rsplitOnce [c] (l ++ c :: r) = some (l,r) := by
  refine (Text.rsplitOnce_eq_some (by simp)).mpr ⟨rfl,?_⟩
  rwa [List.singleton_append,List.tail_cons,List.singleton_infix_iff]

/-- Behind the word there is one hyphen, and the word has two. -/
theorem rsplitOnce_of {l r : List Char} (last : '-' ∉ r) : Text.rsplitOnce "-of-".toList (l ++ "-of-".toList ++ r) = some (l,r) := by
  rw [List.append_assoc]
  refine (Text.rsplitOnce_eq_some (by decide)).mpr ⟨rfl,fun inside => ?_⟩
  have hyphens : List.count '-' "-of-".toList ≤ List.count '-' ("of-".toList ++ r) := inside.sublist.count_le '-'
  rw [List.count_append,List.count_eq_zero.mpr last] at hyphens
  exact absurd hyphens (by decide)

/-- A shard is read off its name, with the digits the name has for its number,
    and off no other. -/
theorem shardOf_eq_some {name : List Char} {s : Shard} : shardOf name = some s ↔ ∃ digits, name = s.spelled digits ∧ s.Spells digits := by
  constructor
  · intro read
    unfold shardOf at read
    obtain ⟨⟨rest,extension⟩,at_dot,past_dot⟩ := Option.bind_eq_some_iff.mp read
    obtain ⟨⟨head,total⟩,at_of,past_of⟩ := Option.bind_eq_some_iff.mp past_dot
    obtain ⟨⟨stem,index⟩,at_hyphen,past_hyphen⟩ := Option.bind_eq_some_iff.mp past_of
    obtain ⟨whole,dot⟩ := (Text.rsplitOnce_eq_some (by simp)).mp at_dot
    obtain ⟨front,_⟩ := (Text.rsplitOnce_eq_some (by decide)).mp at_of
    obtain ⟨begins,_⟩ := (Text.rsplitOnce_eq_some (by simp)).mp at_hyphen
    dsimp only at past_hyphen
    split_ifs at past_hyphen with total_other index_other
    obtain ⟨n,parsed,made⟩ := Option.bind_eq_some_iff.mp past_hyphen
    cases made
    simp only [Bool.or_eq_true,List.isEmpty_iff,Bool.not_eq_true',decide_eq_true_eq,not_or,ne_eq,Decidable.not_not,
      Bool.not_eq_false,List.all_eq_true] at total_other index_other
    obtain ⟨some_total,total_digits⟩ := total_other
    obtain ⟨as_long,are_digits⟩ := index_other
    obtain ⟨numeral,fits⟩ := Text.parseUnsigned_eq_some.mp parsed
    refine ⟨index,?_,?_⟩
    · rw [whole,front,begins]
      simp [Shard.spelled]
    · refine ⟨?_,total_digits,some_total,are_digits,as_long,?_,fits⟩
      · rwa [List.singleton_append,List.tail_cons,List.singleton_infix_iff] at dot
      · have some_digits : index ≠ [] := by
          rintro rfl
          exact some_total (List.length_eq_zero_iff.mp as_long.symm)
        exact numeral.unique ⟨index,.inl rfl,some_digits,are_digits,rfl⟩
  · rintro ⟨digits,rfl,spells⟩
    have at_dot : Text.rsplitOnce ['.'] (s.spelled digits) = some (s.stem ++ '-' :: digits ++ "-of-".toList ++ s.total,s.extension) :=
      rsplitOnce_single spells.undotted
    have at_of : Text.rsplitOnce "-of-".toList (s.stem ++ '-' :: digits ++ "-of-".toList ++ s.total) =
        some (s.stem ++ '-' :: digits,s.total) := rsplitOnce_of (not_digit rfl spells.total_digits)
    have at_hyphen : Text.rsplitOnce ['-'] (s.stem ++ '-' :: digits) = some (s.stem,digits) :=
      rsplitOnce_single (not_digit rfl spells.are_digits)
    have parsed : Text.parseUnsigned 64 digits = some s.index :=
      Text.parseUnsigned_eq_some.mpr ⟨⟨digits,.inl rfl,spells.some_digits,spells.are_digits,spells.index_eq⟩,spells.fits⟩
    have total_fine : ¬ (s.total.isEmpty || !s.total.all Char.isDigit) = true := by
      simpa [spells.some_total] using spells.total_digits
    have index_fine : ¬ (decide (digits.length ≠ s.total.length) || !digits.all Char.isDigit) = true := by
      simpa [spells.as_long] using spells.are_digits
    simp only [shardOf,at_dot,at_of,at_hyphen,parsed,Option.bind_eq_bind,Option.bind_some,if_neg total_fine,if_neg index_fine]
    rfl

/-! ## What is written is read -/

section Names
variable {s : Shard} {digits : List Char}

/-- The number a name has, written out, is the number as the name has it. -/
theorem Shard.Spells.name_index (spells : s.Spells digits) : s.name s.index = s.spelled digits := by
  rw [Shard.name_eq,← spells.as_long,spells.index_eq,padded_of_digits spells.are_digits spells.some_digits]

/-- The name of another shard has its number, of as many digits. -/
theorem Shard.Spells.other (spells : s.Spells digits) {i : ℕ} (fits : i < 2 ^ 64)
    (short : (Nat.toDigits 10 i).length ≤ s.total.length) :
    Shard.Spells ⟨s.stem,i,s.total,s.extension⟩ (padded s.total.length i) where
  undotted := spells.undotted
  total_digits := spells.total_digits
  some_total := spells.some_total
  are_digits := padded_digits _ _
  as_long := padded_length short
  index_eq := (ofDigitChars_padded _ _).symm
  fits := fits

theorem shardOf_name (spells : s.Spells digits) {i : ℕ} (fits : i < 2 ^ 64)
    (short : (Nat.toDigits 10 i).length ≤ s.total.length) :
    shardOf (s.name i) = some ⟨s.stem,i,s.total,s.extension⟩ :=
  shardOf_eq_some.mpr ⟨_,rfl,spells.other fits short⟩

/-- Digits are no slash, so no shard's name has one where one of them has none. -/
theorem slash_free (plain : '/' ∉ s.spelled digits) (i : ℕ) : '/' ∉ s.name i := by
  have digits_plain : '/' ∉ padded s.total.length i := not_digit rfl (padded_digits _ _)
  simp only [Shard.name_eq,Shard.spelled,List.mem_append,List.mem_cons,not_or] at plain ⊢
  exact ⟨⟨⟨⟨plain.1.1.1.1,plain.1.1.1.2.1,digits_plain⟩,plain.1.1.2⟩,plain.1.2⟩,plain.2⟩

/-- The name of a shard names a file in the directory it is put in. -/
theorem isName_name {i : ℕ} (plain : '/' ∉ s.name i) : Path.IsName (Utf8.encode (s.name i)) := by
  have hyphen : (0x2D : UInt8) ∈ Utf8.encode (s.name i) := by
    refine (Utf8.mem_encode (by decide)).mpr ⟨'-',?_,rfl⟩
    simp [Shard.name]
  constructor
  · constructor
    · exact List.ne_nil_of_mem hyphen
    · intro dotted
      rw [dotted] at hyphen
      exact absurd hyphen (by decide)
    · intro slash
      obtain ⟨c,member,same⟩ := (Utf8.mem_encode (by decide)).mp slash
      have is : c = '/' := Char.toNat_inj.mp same
      exact plain (is ▸ member)
  · intro dotted
    rw [dotted] at hyphen
    exact absurd hyphen (by decide)

/-- A file under a given name, beside the file of a path. -/
structure Beside (path : OsStr) (name : List Char) (other : OsStr) : Prop where
  put : other = Path.withFileName path (Utf8.encode name)
  named : Path.fileName other = some (Utf8.encode name)
  directory : (Path.fileName path).isSome = true → Path.parent other = Path.parent path

theorem fileName_sibling (path : OsStr) {i : ℕ} (plain : '/' ∉ s.name i) :
    Path.fileName (s.sibling path i) = some (Utf8.encode (s.name i)) := by
  rw [Shard.sibling_eq]
  exact Path.fileName_withFileName path (isName_name plain)

theorem sibling_beside (path : OsStr) {i : ℕ} (plain : '/' ∉ s.name i) : Beside path (s.name i) (s.sibling path i) where
  put := s.sibling_eq path i
  named := fileName_sibling path plain
  directory := fun named => by rw [s.sibling_eq,Path.parent_withFileName (isName_name plain) named]

end Names

/-! ## The round trip -/

/-- The shard read off the name of a file names that file by its own number,
    and by any other of no more digits a file that is read as the shard of that
    number; no two numbers name one file. -/
theorem shard_names_round_trip {name : List Char} {s : Shard} (file : '/' ∉ name) (is : shardOf name = some s) (path : OsStr) :
    Beside path name (s.sibling path s.index) ∧
    (∀ i < 2 ^ 64, (Nat.toDigits 10 i).length ≤ s.total.length →
      Beside path (s.name i) (s.sibling path i) ∧
      ((Path.fileName (s.sibling path i)).bind Path.toStr).bind (fun other => shardOf other.toList) =
        some ⟨s.stem,i,s.total,s.extension⟩) ∧
    ∀ i j, i ≠ j → Path.fileName (s.sibling path i) ≠ Path.fileName (s.sibling path j) := by
  obtain ⟨digits,rfl,spells⟩ := shardOf_eq_some.mp is
  have plain := slash_free file
  refine ⟨?_,?_,?_⟩
  · rw [← spells.name_index]
    exact sibling_beside path (plain s.index)
  · intro i fits short
    refine ⟨sibling_beside path (plain i),?_⟩
    rw [fileName_sibling path (plain i),Option.bind_some,Path.toStr,Utf8.decode_encode,Option.map_some,Option.bind_some,
      String.toList_ofList]
    exact shardOf_name spells fits short
  · intro i j different same
    rw [fileName_sibling path (plain i),fileName_sibling path (plain j)] at same
    have decoded := congrArg Utf8.decode (Option.some.inj same)
    rw [Utf8.decode_encode,Utf8.decode_encode] at decoded
    exact different (s.name_injective (Option.some.inj decoded))

/-- A name with hyphens and the word in its stem, and zeros in front of its
    number. -/
def wordInStem : List Char := "Big-of-Model-00002-of-00004.gguf".toList

def shardOfWord : Shard := ⟨"Big-of-Model".toList,2,"00004".toList,"gguf".toList⟩

theorem word_in_stem_round_trip :
    Beside (Utf8.encode "x/y.gguf".toList) wordInStem (shardOfWord.sibling (Utf8.encode "x/y.gguf".toList) 2) ∧
      ((Path.fileName (shardOfWord.sibling (Utf8.encode "x/y.gguf".toList) 4)).bind Path.toStr).bind
        (fun other => shardOf other.toList) = some ⟨"Big-of-Model".toList,4,"00004".toList,"gguf".toList⟩ ∧
      Path.fileName (shardOfWord.sibling (Utf8.encode "x/y.gguf".toList) 1) ≠
        Path.fileName (shardOfWord.sibling (Utf8.encode "x/y.gguf".toList) 4) := by
  have trip := shard_names_round_trip (show '/' ∉ wordInStem by decide) (show shardOf wordInStem = some shardOfWord by decide +kernel)
    (Utf8.encode "x/y.gguf".toList)
  obtain ⟨own,others,apart⟩ := trip
  exact ⟨own,(others 4 (by decide) (by decide)).2,apart 1 4 (by decide)⟩

end Maestro.Estimate
