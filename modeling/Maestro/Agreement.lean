import Maestro.Resolve
import Maestro.EstimateExact

/-!
# When a catalog that is read against a root can be served

What is checked is the catalog read against its root, and what is served is the
catalog parsed from the text alone. The two agree where nothing was left to be
derived, and otherwise only where the derivation fails.
-/
namespace Maestro.Resolve
open Toml (Document)
open Read (Drafts Walked drafts_eq_ok)
open Estimate (derive InRange)

section
variable (capacity : ℕ) (disk : Disk) (root : OsStr)

/-- The two readings accept the same text, and have the same entries but for
    those discovered. -/
structure Agrees (toml : String → Except String Document) (text : String) : Prop where
  accepted : (∃ reading, read capacity disk root toml text = some (.ok reading)) ↔ ∃ parsed, parse toml text = .ok parsed
  entries : ∀ reading parsed, read capacity disk root toml text = some (.ok reading) → parse toml text = .ok parsed →
    reading.catalog.entries.filter (fun entry => !reading.catalog.isDiscovered entry.id) = parsed.entries

/-- Whether the model file of an entry is there. -/
def There (entry : Entry) : Prop := (disk.size (Estimate.resolve root entry.path)).isSome

/-- Where it is, the figures of the entry are in range. -/
def Ranged (entry : Entry) : Prop := There disk root entry → InRange disk entry root capacity

/-- Every estimate that is asked for can be derived: no figure is out of range,
    and an entry without an estimate has a model file. -/
structure Derivable (drafts : Drafts) : Prop where
  entries : ∀ entry ∈ drafts.entries, Ranged capacity disk root entry
  undeclared : ∀ entry ∈ drafts.entries, entry.id ∈ drafts.undeclared → There disk root entry
  candidates : ∀ candidate ∈ Discover.candidatesOf disk root drafts.defaults drafts.entries, Ranged capacity disk root candidate

end

section
variable {capacity : ℕ} {disk : Disk} {root : OsStr}

theorem settles_iff {undeclared : List String} {entry : Entry} (tokens : entry.contextSize < 2 ^ 32) :
    Settles capacity disk root undeclared entry ↔
      Ranged capacity disk root entry ∧ (entry.id ∈ undeclared → There disk root entry) := by
  constructor
  · rintro ⟨result,derives,figure⟩
    constructor
    · refine (Estimate.derive_isSome_iff tokens).mp ?_
      rw [derives]
      rfl
    · intro told
      obtain ⟨derived,rfl⟩ := figure told
      exact ((Estimate.derive_ok_iff tokens).mp ⟨derived,derives⟩).1
  · rintro ⟨ranged,there⟩
    obtain ⟨result,derives⟩ := Option.isSome_iff_exists.mp ((Estimate.derive_isSome_iff tokens).mpr ranged)
    refine ⟨result,derives,fun told => ?_⟩
    obtain ⟨derived,also⟩ := (Estimate.derive_ok_iff tokens).mpr ⟨there told,ranged (there told)⟩
    rw [derives] at also
    exact ⟨derived,Option.some.inj also⟩

/-- The reading against the root goes through where nothing is reported and
    every estimate asked for can be derived. -/
theorem readDrafts_ok_iff_derivable {document : Document} {drafts : Drafts} (walked : Walked document drafts) :
    (∃ reading, readDrafts capacity disk root drafts = some (.ok reading)) ↔
      drafts.problems = [] ∧ Derivable capacity disk root drafts := by
  rw [readDrafts_ok_iff]
  refine and_congr_right fun _ => ?_
  have tokens {entry : Entry} (inside : entry ∈ drafts.entries) : entry.contextSize < 2 ^ 32 :=
    (walked.entry_sound inside).context.2
  have candidate_tokens {candidate : Entry}
      (inside : candidate ∈ Discover.candidatesOf disk root drafts.defaults drafts.entries) : candidate.contextSize < 2 ^ 32 := by
    obtain ⟨id,location,rfl,_⟩ := Discover.candidates_drafted disk root drafts.defaults _ inside
    exact (Discover.drafted_context walked.sound).2
  constructor
  · rintro ⟨settles,candidates⟩
    refine ⟨?_,?_,?_⟩
    · intro entry inside
      exact ((settles_iff (tokens inside)).mp (settles entry inside)).1
    · intro entry inside
      exact ((settles_iff (tokens inside)).mp (settles entry inside)).2
    · intro candidate inside
      exact (Estimate.derive_isSome_iff (candidate_tokens inside)).mp (candidates candidate inside)
  · intro derivable
    constructor
    · intro entry inside
      exact (settles_iff (tokens inside)).mpr ⟨derivable.entries entry inside,derivable.undeclared entry inside⟩
    · intro candidate inside
      exact (Estimate.derive_isSome_iff (candidate_tokens inside)).mpr (derivable.candidates candidate inside)

/-- Where every estimate is declared, the entries that are not discovered are
    those of the text. -/
theorem entries_eq {document : Document} {drafts : Drafts} (walked : Walked document drafts) {found : List Entry}
    {reading : Reading} (reads : Reads capacity disk root drafts found reading) (declared : drafts.undeclared = []) :
    reading.catalog.entries.filter (fun entry => !reading.catalog.isDiscovered entry.id) = drafts.entries := by
  rw [reads.filter_eq walked]
  refine List.map_id'' ?_ _
  intro entry
  refine figured_declared ?_
  rw [declared]
  exact List.not_mem_nil

/-- A catalog is served as it was checked exactly where it is faulty, or its
    estimates are all declared just where all could be derived. -/
theorem agrees_iff {toml : String → Except String Document} {text : String} : Agrees capacity disk root toml text ↔
    ∀ drafts, Read.drafts toml text = .ok drafts → drafts.problems = [] →
      (drafts.undeclared = [] ↔ Derivable capacity disk root drafts) := by
  cases is : Read.drafts toml text with
  | error report =>
    have unread : ∀ reading, read capacity disk root toml text ≠ some (.ok reading) := by
      intro reading same
      rw [read,is] at same
      cases same
    have unparsed : ∀ parsed, parse toml text ≠ .ok parsed := by
      intro parsed same
      rw [parse,is] at same
      cases same
    refine iff_of_true ⟨?_,?_⟩ (fun drafts same => by cases same)
    · constructor
      · rintro ⟨reading,same⟩
        exact absurd same (unread reading)
      · rintro ⟨parsed,same⟩
        exact absurd same (unparsed parsed)
    · intro reading parsed same
      exact absurd same (unread reading)
  | ok drafts =>
    obtain ⟨document,_,walked⟩ := drafts_eq_ok is
    have reads_eq : read capacity disk root toml text = readDrafts capacity disk root drafts := by rw [read,is]
    have parse_iff : (∃ parsed, parse toml text = .ok parsed) ↔ drafts.problems = [] ∧ drafts.undeclared = [] := by
      constructor
      · rintro ⟨parsed,same⟩
        obtain ⟨other,same,clean,declared,_⟩ := parse_eq_ok_iff.mp same
        cases is.symm.trans same
        exact ⟨clean,declared⟩
      · rintro ⟨clean,declared⟩
        exact ⟨_,parse_eq_ok_iff.mpr ⟨drafts,is,clean,declared,rfl⟩⟩
    have accepted_iff : ((∃ reading, read capacity disk root toml text = some (.ok reading)) ↔
        ∃ parsed, parse toml text = .ok parsed) ↔
          (drafts.problems = [] → (drafts.undeclared = [] ↔ Derivable capacity disk root drafts)) := by
      rw [parse_iff,reads_eq,readDrafts_ok_iff_derivable walked,and_congr_right_iff]
      exact imp_congr_right fun _ => Iff.comm
    constructor
    · intro agrees other same
      cases same
      exact accepted_iff.mp agrees.accepted
    · intro all
      refine ⟨accepted_iff.mpr (all drafts rfl),?_⟩
      intro reading parsed read_is parse_is
      obtain ⟨other,same,clean,declared,rfl⟩ := parse_eq_ok_iff.mp parse_is
      cases is.symm.trans same
      rw [reads_eq] at read_is
      obtain ⟨found,reads⟩ := readDrafts_eq_ok read_is
      exact entries_eq walked reads declared

end

/-! ## A catalog that is valid when it is checked and refused when it is served -/

/-- A reader of one text. -/
def readerOf (text : String) (document : Document) (other : String) : Except String Document :=
  if other = text then .ok document else .error "expected another text"

/-- A root with one model file in it. -/
def rootM : OsStr := Gguf.textBytes "models"

def diskM (content : Reading.File) : Disk where
  node path :=
    if path = rootM then some (.Directory (some [Gguf.textBytes "m.gguf"]))
    else if path = Gguf.textBytes "models/m.gguf" then some (.File content none)
    else none

/-- A model whose estimate is left to its file. -/
def textM : String := "version = 1\n[models.m]\npath = \"m.gguf\"\ncontext_size = 4096\n"

def documentM : Document where
  table := [("models",.Table [("m",.Table [("context_size",.Integer 4096),("path",.String "m.gguf")])]),("version",.Integer 1)]
  ordered := by
    have m : Toml.Ordered (.Table [("context_size",.Integer 4096),("path",.String "m.gguf")]) :=
      .Table (by decide) (by simpa using ⟨.Integer 4096,.String "m.gguf"⟩)
    have models : Toml.Ordered (.Table [("m",.Table [("context_size",.Integer 4096),("path",.String "m.gguf")])]) :=
      .Table (by decide) (by simpa using m)
    exact .Table (by decide) (by simpa using ⟨models,.Integer 1⟩)

/-- It is read all the same. -/
theorem m_read : ∃ reading, read 0 (diskM Estimate.zip) rootM (readerOf textM documentM) textM = some (.ok reading) := by
  have checked : (read 0 (diskM Estimate.zip) rootM (readerOf textM documentM) textM).any Except.isOk = true := by decide +kernel
  obtain ⟨outcome,is,fine⟩ := (Option.any_eq_true ..).mp checked
  cases outcome with
  | error report => cases fine
  | ok reading => exact ⟨reading,is⟩

theorem undeclared_disagrees : ¬ Agrees 0 (diskM Estimate.zip) rootM (readerOf textM documentM) textM := by
  have served : (parse (readerOf textM documentM) textM).isOk = false := by decide +kernel
  intro agrees
  obtain ⟨parsed,parses⟩ := agrees.accepted.mp m_read
  rw [parses] at served
  cases served

end Maestro.Resolve
