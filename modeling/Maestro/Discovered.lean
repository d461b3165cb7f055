import Maestro.EstimateExact
import Maestro.Discover
import Maestro.Paths
import Mathlib.Data.List.Chain

/-!
# What discovery finds

Identifiers in lower case with single hyphens, told apart from every other, for
files no entry names; and the same ones in whatever order a directory is listed.
-/
namespace Maestro.Discover
open Read (Defaults)
open Estimate (derive resolve)

/-! ## Single hyphens -/

/-- No two hyphens follow one another. -/
def Single (text : List Char) : Prop := text.IsChain fun a b => ¬ (a = '-' ∧ b = '-')

/-- A name in lower case, its words told apart by single hyphens. -/
structure Identifier (id : String) : Prop where
  named : Named id
  single : Single id.toList
  head : id.toList.head? ≠ some '-'
  last : id.toList.getLast? ≠ some '-'

theorem asciiLower_ne_hyphen {c : Char} (plain : c.isAlphanum = true) : Text.asciiLower c ≠ '-' := by
  unfold Text.asciiLower
  split_ifs with upper
  · have lowered : ∀ n < 91, 65 ≤ n → Char.ofNat (n + 32) ≠ '-' := by decide
    have below : c.toNat ≤ 90 := upper.2
    exact lowered c.toNat (by omega) upper.1
  · rintro rfl
    cases plain

theorem Single.snoc {text : List Char} (single : Single text) {c : Char} (apart : c = '-' → text.getLast? ≠ some '-') :
    Single (text ++ [c]) := by
  refine List.isChain_append.mpr ⟨single,List.isChain_singleton c,?_⟩
  rintro a last b first ⟨rfl,rfl⟩
  have is : c = '-' := by simpa using first
  exact apart is last

/-- What is put together, before its ends are trimmed, has no two hyphens in a
    row. -/
theorem sanitised_single (text : List Char) : Single (sanitised text).toList := by
  have kept (out : List Char) (single : Single out) : Single (text.foldl (fun out c =>
      if c.isAlphanum then out ++ [Text.asciiLower c] else if out.getLast? = some '-' then out else out ++ ['-']) out) := by
    induction text generalizing out with
    | nil => exact single
    | cons c text ih =>
      rw [List.foldl_cons]
      apply ih
      split_ifs with alphanumeric hyphened
      · exact single.snoc fun is => absurd is (asciiLower_ne_hyphen alphanumeric)
      · exact single
      · exact single.snoc fun _ => hyphened
  rw [sanitised,String.toList_ofList]
  have front := (kept [] List.isChain_nil).suffix (List.dropWhile_suffix fun c : Char => decide (c = '-'))
  obtain ⟨more,split⟩ := List.rdropWhile_prefix (fun c : Char => decide (c = '-'))
    ((text.foldl _ []).dropWhile fun c : Char => decide (c = '-'))
  rw [← split] at front
  exact front.left_of_append

theorem sanitised_head (text : List Char) : (sanitised text).toList.head? ≠ some '-' := by
  rw [sanitised,String.toList_ofList]
  generalize text.foldl _ [] = out
  intro is
  have front := List.head?_dropWhile_not (fun c : Char => decide (c = '-')) out
  obtain ⟨more,split⟩ := List.rdropWhile_prefix (fun c : Char => decide (c = '-')) (out.dropWhile fun c => decide (c = '-'))
  cases trimmed : (out.dropWhile fun c => decide (c = '-')).rdropWhile fun c => decide (c = '-') with
  | nil =>
    rw [trimmed] at is
    cases is
  | cons c rest =>
    rw [trimmed] at is split
    cases is
    rw [← split] at front
    cases front

theorem sanitised_last (text : List Char) : (sanitised text).toList.getLast? ≠ some '-' := by
  rw [sanitised,String.toList_ofList]
  generalize text.foldl _ [] = out
  generalize trimmed : (out.dropWhile fun c => decide (c = '-')) = text
  intro is
  have some : text.rdropWhile (fun c => decide (c = '-')) ≠ [] := by
    intro none
    rw [none] at is
    cases is
  have kept := List.rdropWhile_last_not _ _ some
  rw [List.getLast?_eq_some_getLast some] at is
  rw [Option.some.inj is] at kept
  exact kept rfl

theorem sanitised_identifier {text : List Char} (there : ¬ (sanitised text).isEmpty = true) : Identifier (sanitised text) :=
  ⟨sanitised_named there,sanitised_single text,sanitised_head text,sanitised_last text⟩

/-- A directory's name and a file's, both of them there, with a hyphen between
    them. -/
theorem qualified_identifier {parent wanted : String} (above : Identifier parent) (below : Identifier wanted) :
    Identifier (qualified parent wanted) := by
  have letters : (qualified parent wanted).toList = parent.toList ++ '-' :: wanted.toList := by
    simp [qualified]
  have some (id : String) (is : Identifier id) : id.toList ≠ [] := fun none => is.named.some (String.toList_eq_nil_iff.mp none)
  refine ⟨qualified_named above.named.plain below.named,?_,?_,?_⟩
  · rw [Single,letters]
    refine List.isChain_append.mpr ⟨above.single,?_,?_⟩
    · refine List.isChain_cons.mpr ⟨?_,below.single⟩
      rintro b first ⟨_,rfl⟩
      exact below.head first
    · rintro a last b _ ⟨rfl,_⟩
      exact above.last last
  · rw [letters,List.head?_append_of_ne_nil _ (some parent above)]
    exact above.head
  · rw [letters,List.getLast?_append_cons,List.getLast?_cons_of_ne_nil (some wanted below)]
    exact below.last

theorem identifier_identifier {file : OsStr} {taken taken' : List String} {id : String}
    (is : (identifier file taken).value = (some id,taken')) : Identifier id := by
  unfold identifier at is
  cases text : (Path.fileName file).bind Path.toStr with
  | none => simp [text] at is
  | some name =>
    simp only [text] at is
    by_cases blank : (sanitised (stemOf name)).isEmpty = true
    · rw [if_pos blank] at is
      cases is
    rw [if_neg blank] at is
    by_cases fresh : sanitised (stemOf name) ∉ taken
    · rw [if_pos fresh] at is
      cases is
      exact sanitised_identifier blank
    rw [if_neg fresh] at is
    split_ifs at is with unnamed
    · cases is
    · cases is
      refine qualified_identifier ?_ (sanitised_identifier blank)
      have there := (not_or.mp unnamed).1
      unfold parentOf at there ⊢
      cases above : ((Path.parent file).bind Path.fileName).bind Path.toStr with
      | none => simp [above] at there
      | some directory =>
        rw [above] at there
        exact sanitised_identifier there

/-! ## The file an entry is for -/

/-- The location of a file leads back to it. -/
theorem relative_resolves {root file : OsStr} {location : String} (is : relative root file = some location) :
    Path.components (resolve root location) = Path.components file := by
  obtain ⟨texts,found,accepted⟩ := Option.bind_eq_some_iff.mp is
  obtain ⟨parts,stripped,texts_are⟩ := Option.bind_eq_some_iff.mp found
  have relative : location = "/".intercalate texts ∧ Fields.Relative location := by
    cases made : Fields.RelativePath.new ("/".intercalate texts) with
    | error complaint =>
      rw [made] at accepted
      cases accepted
    | ok other =>
      rw [made] at accepted
      cases accepted
      obtain ⟨rfl,relative⟩ := Fields.new_eq_ok_iff.mp made
      exact ⟨rfl,relative⟩
  obtain ⟨rfl,relative⟩ := relative
  have bytes : Gguf.textBytes ("/".intercalate texts) = [Path.SLASH].intercalate parts := by
    rw [Path.textBytes_intercalate,Path.textBytes_mapM texts_are]
  have split := Path.stripPrefix_eq_some stripped
  have some : parts ≠ [] := by
    rintro rfl
    cases texts_are
    exact relative.named rfl
  have rootless := Path.head_textBytes relative.rootless.1
  rw [resolve]
  by_cases based : root = []
  · -- Below no root at all a location is the path itself, with the dot in front of it.
    subst based
    have joined : Path.join [] (Gguf.textBytes ("/".intercalate texts)) = [Path.SLASH].intercalate parts := by
      rw [Path.join,if_neg rootless,if_pos (.inl rfl),bytes]
      rfl
    have whole : Path.components file = parts := split
    rw [joined]
    rw [bytes] at rootless
    rw [← whole] at some rootless ⊢
    exact Path.components_intercalate some rootless
  · rw [Path.components_join based rootless,bytes,split]
    rw [Path.partsOf_intercalate some (Path.isPart_behind split (Path.components_ne_nil based))]

/-- A candidate is for a file of the walk that no entry names. -/
theorem candidates_located {disk : Disk} {root : OsStr} {defaults : Defaults} {referenced : List (List OsStr)}
    {files : List OsStr} {taken : List String} {candidate : Entry}
    (inside : candidate ∈ candidates disk root defaults referenced files taken) : Identifier candidate.id ∧
      ∃ file ∈ files, Path.components file ∉ referenced ∧ relative root file = some candidate.path := by
  induction files generalizing taken with
  | nil => simp [candidates] at inside
  | cons file files ih =>
    have later {taken : List String} (behind : candidate ∈ candidates disk root defaults referenced files taken) :
        Identifier candidate.id ∧ ∃ other ∈ file :: files, Path.components other ∉ referenced ∧
          relative root other = some candidate.path := by
      obtain ⟨named,other,within,located⟩ := ih behind
      exact ⟨named,other,List.mem_cons_of_mem _ within,located⟩
    unfold candidates at inside
    split_ifs at inside with named
    · exact later inside
    cases located : relative root file with
    | none =>
      rw [located] at inside
      exact later inside
    | some location =>
      rw [located] at inside
      dsimp only at inside
      cases is : (identifier file taken).value with
      | mk id taken' =>
        rw [is] at inside
        cases id with
        | none => exact later inside
        | some id =>
          rcases List.mem_cons.mp inside with rfl | behind
          · exact ⟨identifier_identifier is,file,List.mem_cons_self,named,located⟩
          · exact later behind

/-! ## In any order -/

section Reordered
variable {disk disk' : Disk} (reordered : disk.Reordered disk')
include reordered

/-- The walk comes by the same files in the same order. -/
theorem walk_reordered (listed : disk.Listed) (depth : ℕ) (directory : OsStr) :
    walk disk depth directory = walk disk' depth directory := by
  induction depth generalizing directory with
  | zero => rfl
  | succ depth ih =>
    have perm := reordered.readDir_perm directory
    unfold walk
    cases is : disk.readDir directory with
    | none =>
      rw [is] at perm
      cases perm_is : disk'.readDir directory with
      | none => rfl
      | some names =>
        rw [perm_is] at perm
        cases perm
    | some names =>
      rw [is] at perm
      cases is' : disk'.readDir directory with
      | none =>
        rw [is'] at perm
        cases perm
      | some names' =>
        rw [is'] at perm
        cases perm with
        | some same =>
          dsimp only
          rw [Path.sorted_eq directory same (listed.names directory names is)]
          refine List.flatMap_congr fun path _ => ?_
          rw [reordered.isDir_eq,ih]

theorem derive_reordered (capacity : ℕ) (entry : Entry) (root : OsStr) :
    derive capacity disk entry root = derive capacity disk' entry root := by
  unfold derive Estimate.weightsOf Estimate.siblingSizes Estimate.withDraft Estimate.draftCache Estimate.withProjector
  simp only [reordered.size_eq,reordered.read_eq]

theorem entry_reordered (capacity : ℕ) (root : OsStr) (defaults : Defaults) (id location : String) :
    entry capacity disk root defaults id location = entry capacity disk' root defaults id location := by
  have same : drafted disk root defaults id location = drafted disk' root defaults id location := by
    unfold drafted trainedFor
    simp only [reordered.read_eq]
  unfold entry
  simp only [same,derive_reordered reordered]

/-- One file after the other becomes what it becomes, with the same notes. -/
theorem visit_reordered (capacity : ℕ) (root : OsStr) (defaults : Defaults) (referenced : List (List OsStr))
    (files : List OsStr) (taken : List String) :
    visit capacity disk root defaults referenced files taken = visit capacity disk' root defaults referenced files taken := by
  induction files generalizing taken with
  | nil => rfl
  | cons file files ih =>
    unfold visit one
    simp only [ih,entry_reordered reordered]

theorem under_reordered (listed : disk.Listed) (capacity : ℕ) (root : OsStr) (defaults : Defaults) (entries : List Entry) :
    under capacity disk root defaults entries = under capacity disk' root defaults entries := by
  rw [under,under,walk_reordered reordered listed,visit_reordered reordered]

end Reordered

/-! ## Safe, unique and stable -/

/-- What the entries found have in common. -/
structure Safe (disk : Disk) (root : OsStr) (entries found : List Entry) : Prop where
  identifiers : ∀ entry ∈ found, Identifier entry.id
  undeclared : ∀ entry ∈ found, entry.id ∉ entries.map Entry.id
  unreserved : ∀ entry ∈ found, entry.id ∉ RESERVED
  distinct : (found.map Entry.id).Nodup
  /-- Each is for a file of the walk, which no location of an entry leads to. -/
  unnamed : ∀ entry ∈ found, ∃ file ∈ walk disk (MAX_DEPTH + 1) root,
    Path.components (resolve root entry.path) = Path.components file ∧
      ∀ declared ∈ entries, ∀ location ∈ declared.path :: (declared.draftPath.toList ++ declared.projectorPath.toList),
        Path.components (resolve root location) ≠ Path.components file

theorem under_safe {capacity : ℕ} {disk : Disk} {root : OsStr} {defaults : Defaults} {entries found : List Entry}
    (is : (under capacity disk root defaults entries).run.value = some found) : Safe disk root entries found := by
  refine ⟨?_,fun entry inside => (under_fresh is inside).1,fun entry inside => (under_fresh is inside).2.1,under_distinct is,?_⟩
  · intro entry inside
    obtain ⟨candidate,derived,listed,_,rfl⟩ := under_mem is inside
    exact (candidates_located listed).1
  · intro entry inside
    obtain ⟨candidate,derived,listed,_,rfl⟩ := under_mem is inside
    obtain ⟨_,file,walked,named,located⟩ := candidates_located listed
    refine ⟨file,walked,relative_resolves located,?_⟩
    intro declared known location told same
    exact named (List.mem_flatMap.mpr ⟨declared,known,List.mem_map.mpr ⟨location,told,same⟩⟩)

/-- Whatever is found is safe, and the same is found in whatever order the
    directories are listed. -/
theorem discovered_safe_stable (capacity : ℕ) {disk disk' : Disk} (listed : disk.Listed) (reordered : disk.Reordered disk')
    (root : OsStr) (defaults : Defaults) (entries : List Entry) :
    (∀ found, (under capacity disk root defaults entries).run.value = some found → Safe disk root entries found) ∧
      (under capacity disk' root defaults entries).run.value = (under capacity disk root defaults entries).run.value :=
  ⟨fun _ is => under_safe is,by rw [under_reordered reordered listed]⟩

/-! ## Two files of one name -/

/-- A root with a model in it, and one of the same name in a directory. -/
def diskT (names : List OsStr) : Disk where
  node path :=
    if path = Gguf.textBytes "r" then some (.Directory (some names))
    else if path = Gguf.textBytes "r/b" then some (.Directory (some [Gguf.textBytes "m.gguf"]))
    else if path = Gguf.textBytes "r/m.gguf" ∨ path = Gguf.textBytes "r/b/m.gguf" then some (.File Estimate.zip none)
    else none

theorem diskT_listed {names : List OsStr} (all : ∀ name ∈ names, Path.IsPart name) : (diskT names).Listed := by
  constructor
  intro path listing is name inside
  unfold Disk.readDir diskT at is
  dsimp only at is
  split_ifs at is
  · cases is
    exact all name inside
  · cases is
    rw [List.mem_singleton.mp inside]
    exact ⟨by decide,by decide,by decide⟩

theorem diskT_reordered {names names' : List OsStr} (same : names.Perm names') : (diskT names).Reordered (diskT names') := by
  constructor
  intro path
  unfold diskT
  dsimp only
  split_ifs
  · exact .some (.Directory same)
  · exact .some (.Same _)
  · exact .some (.Same _)
  · exact .none

def namesT : List OsStr := [Gguf.textBytes "m.gguf",Gguf.textBytes "b"]

theorem namesT_parts : ∀ name ∈ namesT, Path.IsPart name := by
  intro name inside
  rcases List.mem_cons.mp inside with rfl | inside
  · exact ⟨by decide,by decide,by decide⟩
  · rw [List.mem_singleton.mp inside]
    exact ⟨by decide,by decide,by decide⟩

example : ((under 0 (diskT namesT) (Gguf.textBytes "r") .none []).run.value.map fun found => found.map Entry.id) =
    some ["m","r-m"] := by decide +kernel

theorem twins_safe_stable :
    (∀ found, (under 0 (diskT namesT) (Gguf.textBytes "r") .none []).run.value = some found →
      Safe (diskT namesT) (Gguf.textBytes "r") [] found) ∧
    (under 0 (diskT namesT.reverse) (Gguf.textBytes "r") .none []).run.value =
      (under 0 (diskT namesT) (Gguf.textBytes "r") .none []).run.value :=
  discovered_safe_stable 0 (diskT_listed namesT_parts) (diskT_reordered (List.reverse_perm namesT).symm) _ _ _

end Maestro.Discover
