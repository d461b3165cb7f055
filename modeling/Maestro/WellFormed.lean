import Maestro.Agreement
import Maestro.GgufWritten

/-!
# What holds of every catalog that is accepted

Whichever reading accepts it, and whatever mixture of declared, derived and
discovered entries it has.
-/
namespace Maestro.Resolve
open Toml (Document)
open Read (Drafts Walked Sound declaredIn drafts_eq_ok)
open Estimate (derive resolve)

section
variable (toml : String → Except String Document) (capacity : ℕ) (disk : Disk) (root : OsStr) (text : String)

/-- The catalogs that are accepted, by either reading. -/
inductive Accepted : Parsed → Prop
  | parse {parsed : Parsed} : Resolve.parse toml text = .ok parsed → Accepted parsed
  | read {reading : Reading} : Resolve.read capacity disk root toml text = some (.ok reading) → Accepted reading.catalog

/-- What the router relies on in a catalog. -/
structure WellFormed (document : Document) (parsed : Parsed) : Prop where
  ascending : parsed.entries.Pairwise fun a b => a.id < b.id
  found : ∀ entry ∈ parsed.entries, parsed.entry entry.id = some entry
  sound : ∀ entry ∈ parsed.entries, Sound entry
  estimated : ∀ entry ∈ parsed.entries, 0 < entry.memoryEstimateMib
  derived : ∀ id ∈ parsed.derived, ∃ entry ∈ parsed.entries, entry.id = id
  discovered : ∀ id ∈ parsed.discovered, ∃ entry ∈ parsed.entries, entry.id = id
  onDemand : ∀ entry ∈ parsed.entries, entry.id ∈ parsed.discovered → entry.residency = .OnDemand ∧ entry.id ∈ parsed.derived
  figures : ∀ entry ∈ parsed.entries, entry.id ∈ parsed.derived →
    ∃ derived, derive capacity disk entry root = some (.ok derived) ∧ entry.memoryEstimateMib = derived.mib
  declared : ∀ id mib, declaredIn document.table id = some mib →
    ∃ entry ∈ parsed.entries, entry.id = id ∧ entry.memoryEstimateMib = mib

/-- No discovered entry has a longer context than its file says it was trained
    for; `counts` tells which figures of a file count. -/
def WithinTraining (counts : ℕ → Prop) (parsed : Parsed) : Prop :=
  ∀ entry ∈ parsed.entries, entry.id ∈ parsed.discovered → ∀ metadata, Gguf.Metadata.read disk (resolve root entry.path) = .ok metadata →
    ∀ context, metadata.ofModel "context_length" = some context → counts context → entry.contextSize ≤ context

end

/-! ## Entries in strict order -/

/-- In a list in strict order an identifier finds its entry. -/
theorem entry_of_ascending {parsed : Parsed} (ascending : parsed.entries.Pairwise fun a b => a.id < b.id) {entry : Entry}
    (inside : entry ∈ parsed.entries) : parsed.entry entry.id = some entry := by
  have distinct : (parsed.entries.map Entry.id).Nodup := by
    rw [List.Nodup,List.pairwise_map]
    exact ascending.imp ne_of_lt
  exact (Catalog.mk parsed.entries distinct).entry_of_mem inside

/-- An entry is as sound with another estimate. -/
theorem sound_estimate {entry : Entry} (sound : Sound entry) (mib : ℕ) : Sound { entry with memoryEstimateMib := mib } :=
  ⟨sound.path,sound.draft,sound.projector,sound.context,sound.startup⟩

section
variable {toml : String → Except String Document} {capacity : ℕ} {disk : Disk} {root : OsStr} {document : Document}
  {drafts : Drafts}

/-- A model with a declared estimate is an entry of a text without problems. -/
theorem declared_entry (walked : Walked document drafts) (clean : drafts.problems = []) {id : String} {mib : ℕ}
    (told : declaredIn document.table id = some mib) :
    ∃ entry ∈ drafts.entries, entry.id = id ∧ entry.memoryEstimateMib = mib ∧ entry.id ∉ drafts.undeclared := by
  obtain ⟨table,tabled,_⟩ := Option.bind_eq_some_iff.mp told
  obtain ⟨value,listed,_⟩ := Option.bind_eq_some_iff.mp tabled
  have named : id ∈ (Read.modelsOf document.table).map Prod.fst := List.mem_map.mpr ⟨_,Keyed.mem_of_lookup listed,rfl⟩
  rw [← walked.names_eq clean] at named
  obtain ⟨entry,inside,rfl⟩ := List.mem_map.mp named
  obtain ⟨estimate,undeclared_iff⟩ := walked.estimate_eq inside
  refine ⟨entry,inside,rfl,?_,?_⟩
  · rw [estimate,told]
    rfl
  · intro undeclared
    rw [undeclared_iff.mp undeclared] at told
    cases told

theorem parse_well_formed (walked : Walked document drafts) (clean : drafts.problems = []) (declared : drafts.undeclared = []) :
    WellFormed capacity disk root document ⟨drafts.version.getD 0,drafts.entries,[],[]⟩ := by
  have ascending : drafts.entries.Pairwise fun a b => a.id < b.id := List.pairwise_map.mp (walked.ascending clean)
  constructor
  case ascending => exact ascending
  case found => exact fun entry inside => entry_of_ascending ascending inside
  case sound => exact fun entry inside => walked.entry_sound inside
  case estimated =>
    intro entry inside
    refine (walked.estimate_figure inside ?_).1
    rw [declared]
    exact List.not_mem_nil
  case declared =>
    intro id mib told
    obtain ⟨entry,inside,same,estimate,_⟩ := declared_entry walked clean told
    exact ⟨entry,inside,same,estimate⟩
  all_goals simp

namespace Reads
variable {found : List Entry} {reading : Reading} (reads : Reads capacity disk root drafts found reading)
  (walked : Walked document drafts)
include reads

theorem mem_iff {entry : Entry} : entry ∈ reading.catalog.entries ↔
    (∃ drafted ∈ drafts.entries, figured capacity disk root drafts.undeclared drafted = entry) ∨ entry ∈ found := by
  rw [reads.entries,mem_byId,List.mem_append,List.mem_map]

theorem discovered_iff {id : String} : id ∈ reading.catalog.discovered ↔ ∃ entry ∈ found, entry.id = id := by
  rw [reads.discovered,List.mem_map]

/-- An entry of the text is not discovered. -/
theorem not_discovered {entry : Entry} (inside : entry ∈ drafts.entries) : entry.id ∉ reading.catalog.discovered := by
  intro also
  obtain ⟨other,listed,same⟩ := reads.discovered_iff.mp also
  refine (reads.fresh listed).1 ?_
  rw [same]
  exact List.mem_map_of_mem inside

/-- An entry of the text is derived where it declares no estimate. -/
theorem derived_declared {entry : Entry} (inside : entry ∈ drafts.entries) :
    entry.id ∈ reading.catalog.derived ↔ entry.id ∈ drafts.undeclared := by
  rw [reads.derived]
  constructor
  · rintro (⟨_,undeclared⟩ | discovered)
    · exact undeclared
    · rw [← reads.discovered] at discovered
      exact absurd discovered (reads.not_discovered inside)
  · intro undeclared
    exact .inl ⟨List.mem_map_of_mem inside,undeclared⟩

/-- A discovered entry is what its file becomes, with the estimate derived for
    it. -/
theorem discovered_cases {entry : Entry} (inside : entry ∈ found) : ∃ id location derived,
    Fields.Relative location ∧ derive capacity disk (Discover.drafted disk root drafts.defaults id location) root =
      some (.ok derived) ∧
    entry = { Discover.drafted disk root drafts.defaults id location with memoryEstimateMib := derived.mib } := by
  obtain ⟨candidate,derived,listed,derives,rfl⟩ := Discover.under_mem reads.under inside
  obtain ⟨id,location,rfl,relative⟩ := Discover.candidates_drafted disk root drafts.defaults _ listed
  exact ⟨id,location,derived,relative,derives,rfl⟩

include walked

theorem entry_sound {entry : Entry} (inside : entry ∈ reading.catalog.entries) :
    Sound entry ∧ 0 < entry.memoryEstimateMib := by
  rcases reads.mem_iff.mp inside with ⟨drafted,listed,rfl⟩ | discovered
  · have sound := walked.entry_sound listed
    by_cases told : drafted.id ∈ drafts.undeclared
    · obtain ⟨derived,derives,same⟩ := figured_undeclared told (reads.settles drafted listed)
      rw [same]
      exact ⟨sound_estimate sound derived.mib,(Estimate.derived_positive sound.context.2 derives).1⟩
    · rw [figured_declared told]
      exact ⟨sound,(walked.estimate_figure listed told).1⟩
  · obtain ⟨id,location,derived,relative,derives,rfl⟩ := reads.discovered_cases discovered
    have sound : Sound (Discover.drafted disk root drafts.defaults id location) :=
      Discover.drafted_sound walked.sound relative
    exact ⟨sound_estimate sound derived.mib,(Estimate.derived_positive sound.context.2 derives).1⟩

omit walked in
theorem figure_eq {entry : Entry} (inside : entry ∈ reading.catalog.entries) (told : entry.id ∈ reading.catalog.derived) :
    ∃ derived, derive capacity disk entry root = some (.ok derived) ∧ entry.memoryEstimateMib = derived.mib := by
  rcases reads.mem_iff.mp inside with ⟨drafted,listed,rfl⟩ | discovered
  · rw [figured_id,reads.derived_declared listed] at told
    obtain ⟨derived,derives,same⟩ := figured_undeclared told (reads.settles drafted listed)
    rw [same]
    exact ⟨derived,derives,rfl⟩
  · obtain ⟨id,location,derived,_,derives,rfl⟩ := reads.discovered_cases discovered
    exact ⟨derived,derives,rfl⟩

theorem ascending : reading.catalog.entries.Pairwise fun a b => a.id < b.id := by
  rw [reads.entries]
  exact byId_ascending (reads.distinct walked)

theorem well_formed : WellFormed capacity disk root document reading.catalog := by
  have ascending := reads.ascending walked
  constructor
  case ascending => exact ascending
  case found => exact fun entry inside => entry_of_ascending ascending inside
  case sound => exact fun entry inside => (reads.entry_sound walked inside).1
  case estimated => exact fun entry inside => (reads.entry_sound walked inside).2
  case figures => exact fun entry inside told => reads.figure_eq inside told
  case derived =>
    intro id told
    rcases (reads.derived id).mp told with ⟨declared,_⟩ | discovered
    · obtain ⟨drafted,listed,rfl⟩ := List.mem_map.mp declared
      exact ⟨_,reads.mem_iff.mpr (.inl ⟨drafted,listed,rfl⟩),figured_id drafted⟩
    · obtain ⟨entry,listed,rfl⟩ := List.mem_map.mp discovered
      exact ⟨entry,reads.mem_iff.mpr (.inr listed),rfl⟩
  case discovered =>
    intro id told
    obtain ⟨entry,listed,rfl⟩ := reads.discovered_iff.mp told
    exact ⟨entry,reads.mem_iff.mpr (.inr listed),rfl⟩
  case onDemand =>
    intro entry inside told
    have derived : entry.id ∈ reading.catalog.derived := (reads.derived entry.id).mpr (.inr (reads.discovered ▸ told))
    refine ⟨?_,derived⟩
    rcases reads.mem_iff.mp inside with ⟨drafted,listed,rfl⟩ | discovered
    · rw [figured_id] at told
      exact absurd told (reads.not_discovered listed)
    · obtain ⟨id,location,_,_,_,rfl⟩ := reads.discovered_cases discovered
      rfl
  case declared =>
    intro id mib told
    obtain ⟨entry,inside,same,estimate,declared⟩ := declared_entry walked reads.clean told
    refine ⟨entry,reads.mem_iff.mpr (.inl ⟨entry,inside,?_⟩),same,estimate⟩
    exact figured_declared declared

omit walked in
/-- A figure greater than zero in the file of a discovered entry bounds its
    context. -/
theorem within_training : WithinTraining disk root (0 < ·) reading.catalog := by
  intro entry inside told metadata metadata_is context context_is positive
  rcases reads.mem_iff.mp inside with ⟨drafted,listed,rfl⟩ | discovered
  · rw [figured_id] at told
    exact absurd told (reads.not_discovered listed)
  · obtain ⟨id,location,_,_,_,rfl⟩ := reads.discovered_cases discovered
    exact Discover.drafted_trained id metadata_is context_is positive

end Reads

variable {text : String} {parsed : Parsed}

/-- The entries of an accepted catalog are in strict order. -/
theorem ascending_of_accepted (accepted : Accepted toml capacity disk root text parsed) :
    parsed.entries.Pairwise fun a b => a.id < b.id := by
  cases accepted with
  | parse parses =>
    obtain ⟨drafts,is,clean,_,rfl⟩ := parse_eq_ok_iff.mp parses
    obtain ⟨document,_,walked⟩ := drafts_eq_ok is
    exact List.pairwise_map.mp (walked.ascending clean)
  | read reading_is =>
    obtain ⟨drafts,found,is,reads⟩ := read_eq_ok reading_is
    obtain ⟨document,_,walked⟩ := drafts_eq_ok is
    exact reads.ascending walked

/-- Every catalog that is accepted is well formed. -/
theorem accepted_well_formed (accepted : Accepted toml capacity disk root text parsed) : ∃ document, toml text = .ok document ∧
    WellFormed capacity disk root document parsed ∧ WithinTraining disk root (0 < ·) parsed := by
  cases accepted with
  | parse parses =>
    obtain ⟨drafts,is,clean,declared,rfl⟩ := parse_eq_ok_iff.mp parses
    obtain ⟨document,document_is,walked⟩ := drafts_eq_ok is
    refine ⟨document,document_is,parse_well_formed walked clean declared,?_⟩
    intro entry _ told
    cases told
  | read reading_is =>
    obtain ⟨drafts,found,is,reads⟩ := read_eq_ok reading_is
    obtain ⟨document,document_is,walked⟩ := drafts_eq_ok is
    exact ⟨document,document_is,reads.well_formed walked,reads.within_training⟩

end

/-- So is the one whose model has its estimate derived. -/
theorem m_well_formed : ∃ parsed document, Accepted (readerOf textM documentM) 0 (diskM Estimate.zip) rootM textM parsed ∧
    readerOf textM documentM textM = .ok document ∧ WellFormed 0 (diskM Estimate.zip) rootM document parsed ∧
      WithinTraining (diskM Estimate.zip) rootM (0 < ·) parsed := by
  obtain ⟨reading,is⟩ := m_read
  obtain ⟨document,document_is,well⟩ := accepted_well_formed (.read is)
  exact ⟨_,document,.read is,document_is,well⟩

/-! ## A file that was trained for nothing -/

/-- A catalog that names no model. -/
def textE : String := "version = 1\n[models]\n"

def documentE : Document where
  table := [("models",.Table []),("version",.Integer 1)]
  ordered := by
    have models : Toml.Ordered (.Table []) := .Table (by decide) (by simp)
    exact .Table (by decide) (by simpa using ⟨models,.Integer 1⟩)

/-- A model file that gives its context as zero. -/
def untrained : Maestro.Reading.File :=
  ⟨Gguf.head 3 0 [("general.architecture",.Text "llama"),("llama.context_length",.Scalar .UINT32 0)],by decide +kernel⟩

/-- The entry it becomes has a context all the same. -/
theorem untrained_exceeds : ¬ ∀ parsed, Accepted (readerOf textE documentE) 0 (diskM untrained) rootM textE parsed →
    ∃ document, readerOf textE documentE textE = .ok document ∧ WellFormed 0 (diskM untrained) rootM document parsed ∧
      WithinTraining (diskM untrained) rootM (fun _ => True) parsed := by
  have discovers : ((read 0 (diskM untrained) rootM (readerOf textE documentE) textE).bind Except.toOption).any (fun reading =>
      reading.catalog.entries.any fun entry =>
        entry.id ∈ reading.catalog.discovered ∧ entry.path = "m.gguf" ∧ entry.contextSize = 4096) = true := by decide +kernel
  have trained : (Gguf.Metadata.read (diskM untrained) (resolve rootM "m.gguf")).toOption.bind
      (fun metadata => metadata.ofModel "context_length") = some 0 := by decide +kernel
  intro all
  rcases is : read 0 (diskM untrained) rootM (readerOf textE documentE) textE with _ | report | reading
  · rw [is] at discovers
    cases discovers
  · rw [is] at discovers
    cases discovers
  · rw [is] at discovers
    obtain ⟨entry,inside,shape⟩ := List.any_eq_true.mp discovers
    obtain ⟨discovered,path,context⟩ := of_decide_eq_true shape
    obtain ⟨_,_,_,within⟩ := all _ (.read is)
    obtain ⟨metadata,metadata_is,figure⟩ := Option.bind_eq_some_iff.mp trained
    have reads : Gguf.Metadata.read (diskM untrained) (resolve rootM entry.path) = .ok metadata := by
      rw [path]
      exact Maestro.Reading.toOption_eq_some.mp metadata_is
    have bound := within entry inside discovered metadata reads 0 figure trivial
    omega

end Maestro.Resolve
