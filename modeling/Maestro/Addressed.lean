import Maestro.WellFormed
import Maestro.TwoEndpoints

/-!
# Whether every entry is reachable at its own endpoint

An identifier is any key of the models table, or is made of a file's name. The
endpoint of an entry is found by splitting a line at white space and a path at
slashes, so an identifier with either in it names an endpoint that leads
elsewhere.
-/
namespace Maestro.Resolve
open Toml (Document)
open Read (modelsOf drafts_eq_ok)
open Proxy (Endpoint DEDICATED)

/-- The request line that addresses a model at a path of its own. -/
def requestLine (id : String) (suffix : List Char) : List Char :=
  "POST".toList ++ ' ' :: ((DEDICATED ++ (id.toList ++ '/' :: suffix)) ++ ' ' :: "HTTP/1.1".toList)

example : requestLine "m" "v1/models".toList = "POST /models/m/v1/models HTTP/1.1".toList := by decide

/-- Whatever is asked of an entry by its identifier, the request is for that
    entry and that path, and finds the entry. -/
def Reachable (parsed : Parsed) (entry : Entry) : Prop :=
  ∀ suffix headers, suffix ≠ [] → (∀ c ∈ suffix, Text.whiteSpace c = false) →
    (∃ head, Proxy.parse (requestLine entry.id suffix :: headers) = .ok head ∧
      head.endpoint = .Dedicated entry.id.toList ('/' :: suffix)) ∧
    parsed.entry entry.id = some entry

/-- An identifier that one word, and one part of a path, can be. -/
structure Addressable (id : String) : Prop where
  named : id ≠ ""
  slashless : '/' ∉ id.toList
  plain : ∀ c ∈ id.toList, Text.whiteSpace c = false

/-! ## The line of an addressable identifier -/

theorem requestLine_words {id : String} (plain : ∀ c ∈ id.toList, Text.whiteSpace c = false) {suffix : List Char}
    (suffix_plain : ∀ c ∈ suffix, Text.whiteSpace c = false) : Text.words (requestLine id suffix) =
      ["POST".toList,DEDICATED ++ (id.toList ++ '/' :: suffix),"HTTP/1.1".toList] := by
  have dedicated_plain : ∀ c ∈ DEDICATED, Text.whiteSpace c = false := Text.forall_mem_of_all (by decide)
  have path_plain : ∀ c ∈ DEDICATED ++ (id.toList ++ '/' :: suffix), Text.whiteSpace c = false := by
    intro c inside
    simp only [List.mem_append,List.mem_cons] at inside
    rcases inside with front | named | rfl | behind
    · exact dedicated_plain c front
    · exact plain c named
    · decide
    · exact suffix_plain c behind
  have method : Text.IsWord "POST".toList := ⟨by decide,Text.forall_mem_of_all (by decide)⟩
  have version : Text.IsWord "HTTP/1.1".toList := ⟨by decide,Text.forall_mem_of_all (by decide)⟩
  exact Text.words_line method ⟨List.append_ne_nil_of_left_ne_nil (by decide) _,path_plain⟩ version

theorem parse_addressable {id : String} (addressable : Addressable id) {suffix : List Char} (more : suffix ≠ [])
    (plain : ∀ c ∈ suffix, Text.whiteSpace c = false) (headers : List (List Char)) :
    ∃ head, Proxy.parse (requestLine id suffix :: headers) = .ok head ∧ head.endpoint = .Dedicated id.toList ('/' :: suffix) := by
  have named : id.toList ≠ [] := fun same => addressable.named (String.toList_eq_nil_iff.mp same)
  refine ⟨_,Proxy.parse_line (requestLine_words addressable.plain plain)
    (Proxy.of_dedicated named addressable.slashless more),?_⟩
  rw [Proxy.foldl_readHeader]

/-- A line that leads to an identifier has an addressable one. -/
theorem addressable_of_parse {lines : List (List Char)} {head : Proxy.Head} (parses : Proxy.parse lines = .ok head)
    {id : String} {suffix : List Char} (is : head.endpoint = .Dedicated id.toList suffix) : Addressable id := by
  obtain ⟨_,_,_,_,line,method,path,others,_,words,_,endpoint_is⟩ := Proxy.parse_ok parses
  rw [is] at endpoint_is
  obtain ⟨named,slashless,within⟩ := Proxy.dedicated_of endpoint_is
  refine ⟨?_,slashless,?_⟩
  · rintro rfl
    exact named rfl
  · intro c inside
    have path_in : path ∈ Text.words line := by simp [words]
    exact Text.words_plain path_in c (within c inside)

/-! ## The identifiers of a catalog -/

/-- An entry of a list in strict order is reachable exactly when its identifier
    is addressable. -/
theorem reachable_iff {parsed : Parsed} (ascending : parsed.entries.Pairwise fun a b => a.id < b.id) {entry : Entry}
    (inside : entry ∈ parsed.entries) : Reachable parsed entry ↔ Addressable entry.id := by
  constructor
  · intro reachable
    obtain ⟨⟨head,parses,is⟩,_⟩ := reachable ['x'] [] (by simp) (Text.forall_mem_of_all (by decide))
    exact addressable_of_parse parses is
  · intro addressable suffix headers more plain
    exact ⟨parse_addressable addressable more plain headers,entry_of_ascending ascending inside⟩

/-- What is made of a file's name is neither a slash nor white space. -/
theorem nameChar_plain {c : Char} (is : Discover.nameChar c = true) : c ≠ '/' ∧ Text.whiteSpace c = false := by
  have range : c.toNat = 45 ∨ 48 ≤ c.toNat ∧ c.toNat ≤ 57 ∨ 97 ≤ c.toNat ∧ c.toNat ≤ 122 := by
    simp only [Discover.nameChar,Bool.or_eq_true,decide_eq_true_eq] at is
    rcases is with (rfl | lower) | digit
    · exact .inl rfl
    · obtain ⟨above,below⟩ := Bool.and_eq_true_iff.mp lower
      exact .inr (.inr ⟨of_decide_eq_true above,of_decide_eq_true below⟩)
    · obtain ⟨above,below⟩ := Bool.and_eq_true_iff.mp digit
      exact .inr (.inl ⟨of_decide_eq_true above,of_decide_eq_true below⟩)
  constructor
  · rintro rfl
    revert range
    decide
  · simp only [Text.whiteSpace,Bool.or_eq_false_iff,Bool.and_eq_false_iff,decide_eq_false_iff_not,beq_eq_false_iff_ne]
    omega

theorem named_addressable {id : String} (named : Discover.Named id) : Addressable id where
  named := named.some
  slashless := fun inside => (nameChar_plain (named.plain _ inside)).1 rfl
  plain := fun c inside => (nameChar_plain (named.plain c inside)).2

section
variable {toml : String → Except String Document} {capacity : ℕ} {disk : Disk} {root : OsStr} {text : String}
  {parsed : Parsed} {document : Document}

/-- An accepted catalog has every model of the text, and beside them what was
    named after a file. -/
theorem accepted_ids (accepted : Accepted toml capacity disk root text parsed) (is : toml text = .ok document) :
    (∀ id ∈ Toml.keys (modelsOf document.table), ∃ entry ∈ parsed.entries, entry.id = id) ∧
      ∀ entry ∈ parsed.entries, entry.id ∈ Toml.keys (modelsOf document.table) ∨ Discover.Named entry.id := by
  cases accepted with
  | parse parses =>
    obtain ⟨drafts,drafts_are,clean,_,rfl⟩ := parse_eq_ok_iff.mp parses
    obtain ⟨other,same,walked⟩ := drafts_eq_ok drafts_are
    cases is.symm.trans same
    have names := walked.names_eq clean
    constructor
    · intro id named
      rw [Toml.keys,← names] at named
      obtain ⟨entry,inside,rfl⟩ := List.mem_map.mp named
      exact ⟨entry,inside,rfl⟩
    · intro entry inside
      left
      rw [Toml.keys,← names]
      exact List.mem_map_of_mem inside
  | read reading_is =>
    obtain ⟨drafts,found,drafts_are,reads⟩ := read_eq_ok reading_is
    obtain ⟨other,same,walked⟩ := drafts_eq_ok drafts_are
    cases is.symm.trans same
    have names := walked.names_eq reads.clean
    constructor
    · intro id named
      rw [Toml.keys,← names] at named
      obtain ⟨drafted,inside,rfl⟩ := List.mem_map.mp named
      exact ⟨_,reads.mem_iff.mpr (.inl ⟨drafted,inside,rfl⟩),figured_id drafted⟩
    · intro entry inside
      rcases reads.mem_iff.mp inside with ⟨drafted,listed,rfl⟩ | discovered
      · left
        rw [figured_id,Toml.keys,← names]
        exact List.mem_map_of_mem listed
      · exact .inr (reads.fresh discovered).2.2

/-- Every entry is reachable at its own endpoint exactly when every model of the
    text has an addressable name. -/
theorem all_reachable_iff (accepted : Accepted toml capacity disk root text parsed) (is : toml text = .ok document) :
    (∀ entry ∈ parsed.entries, Reachable parsed entry) ↔ ∀ id ∈ Toml.keys (modelsOf document.table), Addressable id := by
  have ascending := ascending_of_accepted accepted
  obtain ⟨listed,others⟩ := accepted_ids accepted is
  constructor
  · intro all id named
    obtain ⟨entry,inside,rfl⟩ := listed id named
    exact (reachable_iff ascending inside).mp (all entry inside)
  · intro all entry inside
    refine (reachable_iff ascending inside).mpr ?_
    rcases others entry inside with named | discovered
    · exact all entry.id named
    · exact named_addressable discovered

end

/-- The one model of a catalog is reachable. -/
theorem m_reachable : ∃ parsed, Accepted (readerOf textM documentM) 0 (diskM Estimate.zip) rootM textM parsed ∧
    ((∀ entry ∈ parsed.entries, Reachable parsed entry) ↔ ∀ id ∈ Toml.keys (modelsOf documentM.table), Addressable id) ∧
      ∀ id ∈ Toml.keys (modelsOf documentM.table), Addressable id := by
  obtain ⟨reading,is⟩ := m_read
  refine ⟨_,.read is,all_reachable_iff (.read is) rfl,?_⟩
  intro id named
  have only : Toml.keys (modelsOf documentM.table) = ["m"] := by decide
  rw [only,List.mem_singleton] at named
  subst named
  exact ⟨by decide,by decide,Text.forall_mem_of_all (by decide)⟩

/-! ## A model whose endpoint leads elsewhere -/

/-- A model with a slash in its name. -/
def textS : String :=
  "version = 1\n[models.\"a/b\"]\npath = \"m.gguf\"\ncontext_size = 4096\nmemory_estimate_mib = 512\n"

def documentS : Document where
  table := [("models",.Table [("a/b",.Table [("context_size",.Integer 4096),("memory_estimate_mib",.Integer 512),
    ("path",.String "m.gguf")])]),("version",.Integer 1)]
  ordered := by
    have model : Toml.Ordered (.Table [("context_size",.Integer 4096),("memory_estimate_mib",.Integer 512),
        ("path",.String "m.gguf")]) := .Table (by decide) (by simpa using ⟨.Integer 4096,.Integer 512,.String "m.gguf"⟩)
    have models : Toml.Ordered (.Table [("a/b",.Table [("context_size",.Integer 4096),("memory_estimate_mib",.Integer 512),
        ("path",.String "m.gguf")])]) := .Table (by decide) (by simpa using model)
    exact .Table (by decide) (by simpa using ⟨models,.Integer 1⟩)

theorem slash_unreachable : ¬ ∀ parsed, Accepted (readerOf textS documentS) 0 (diskM Estimate.zip) rootM textS parsed →
    ∀ entry ∈ parsed.entries, Reachable parsed entry := by
  have served : (parse (readerOf textS documentS) textS).isOk = true := by decide +kernel
  intro all
  cases is : parse (readerOf textS documentS) textS with
  | error report =>
    rw [is] at served
    cases served
  | ok parsed =>
    have accepted : Accepted (readerOf textS documentS) 0 (diskM Estimate.zip) rootM textS parsed := .parse is
    obtain ⟨entry,inside,named⟩ := (accepted_ids accepted rfl).1 "a/b" (by decide)
    have addressable := (reachable_iff (ascending_of_accepted accepted) inside).mp (all parsed accepted entry inside)
    rw [named] at addressable
    exact addressable.slashless (by decide)

end Maestro.Resolve
