import Maestro.Agreement

/-!
# The catalogs there are

Entries are put into the words of a text, field by field, and read back from it
as they were. What a text can say is so just what may be declared: figures that
are greater than zero, locations inside the root, a runtime that names a binary,
and everything in the order of its names.
-/
namespace Maestro.Written
open Toml (Value Pairs Document Ordered get)
open Fields
open Read (Defaults Figure Sound scopeOf modelsOf ENTRY_FIELDS)
open Resolve (Parsed)

/-! ## Fields in words -/

/-- The spelling of a residency. -/
def residencyName : Residency → String
  | .Resident => "resident"
  | .OnDemand => "on-demand"

/-- A flags table in words. -/
def flagTable (flags : List (String × String)) : Pairs := flags.map fun (key,value) => (key,.String value)

/-- A name that a runtime may have. -/
def Runtime (name : String) : Prop := name ≠ "" ∧ ∀ c ∈ name.toList, (c.isLower || c.isDigit || c = '-') = true

theorem asPositive_number {n : ℕ} (figure : Figure n) : asPositive (.Integer n) = .ok n := asPositive_eq_ok_iff.mpr ⟨rfl,figure⟩

theorem asResidency_name (residency : Residency) : asResidency (.String (residencyName residency)) = .ok residency := by
  cases residency <;> rfl

theorem asRuntime_eq_ok_iff {value : Value} {name : String} : asRuntime value = .ok name ↔ value = .String name ∧ Runtime name := by
  unfold asRuntime
  cases text : asText value with
  | error complaint =>
    refine iff_of_false (fun is => by cases is) ?_
    rintro ⟨is,_⟩
    rw [asText_eq_ok_iff.mpr is] at text
    cases text
  | ok found =>
    have is := asText_eq_ok_iff.mp text
    subst is
    show (if _ then Except.ok found else _) = Except.ok name ↔ _
    have named : (!found.isEmpty && found.toList.all fun c => c.isLower || c.isDigit || c = '-') = true ↔ Runtime found := by
      rw [Bool.and_eq_true,List.all_eq_true,Bool.not_eq_true',Bool.eq_false_iff]
      exact and_congr_left fun _ => not_congr String.isEmpty_iff
    split_ifs with allowed
    · constructor
      · intro same
        cases same
        exact ⟨rfl,named.mp allowed⟩
      · rintro ⟨same,_⟩
        cases same
        rfl
    · refine iff_of_false (fun same => by cases same) ?_
      rintro ⟨same,runtime⟩
      cases same
      exact allowed (named.mpr runtime)

theorem ordered_text {flags : List (String × String)} (ascending : Keyed.Ascending flags) : Ordered (.Table (flagTable flags)) := by
  refine .Table ?_ ?_
  · rw [Keyed.Ascending,flagTable,List.map_map]
    exact ascending
  · intro pair inside
    obtain ⟨_,_,rfl⟩ := List.mem_map.mp inside
    exact .String _

theorem lookup_flagTable (flags : List (String × String)) (key : String) :
    (flagTable flags).lookup key = (flags.lookup key).map Value.String := by
  induction flags with
  | nil => rfl
  | cons pair flags ih =>
    have first : flagTable (pair :: flags) = (pair.1,.String pair.2) :: flagTable flags := rfl
    rw [first,Keyed.lookup_cons,Keyed.lookup_cons pair.1,ih]
    split_ifs <;> rfl

/-! ## What is read of a flags table -/

/-- The settings of a table that are text. -/
def texts (inner : Pairs) : List (String × String) := inner.filterMap fun pair => (Toml.asStr pair.2).map fun text => (pair.1,text)

theorem texts_ascending {inner : Pairs} (ascending : Keyed.Ascending inner) : Keyed.Ascending (texts inner) := by
  refine ascending.sublist (Read.filterMap_sublist ?_ inner)
  intro pair text is
  obtain ⟨_,_,rfl⟩ := Option.map_eq_some_iff.mp is
  rfl

theorem lookup_texts {inner : Pairs} (ascending : Keyed.Ascending inner) (key : String) :
    (texts inner).lookup key = (inner.lookup key).bind Toml.asStr := by
  refine Option.ext fun text => ?_
  rw [← Keyed.mem_iff_lookup (texts_ascending ascending),Option.bind_eq_some_iff,texts,List.mem_filterMap]
  constructor
  · rintro ⟨pair,inside,is⟩
    obtain ⟨_,text_is,same⟩ := Option.map_eq_some_iff.mp is
    cases same
    exact ⟨pair.2,Keyed.lookup_of_mem ascending inside,text_is⟩
  · rintro ⟨value,found,text_is⟩
    exact ⟨(key,value),Keyed.mem_of_lookup found,by rw [text_is]; rfl⟩

theorem texts_flagTable (flags : List (String × String)) : texts (flagTable flags) = flags := by
  rw [texts,flagTable,List.filterMap_map]
  exact List.filterMap_some

/-- A flags table is text throughout. -/
theorem text_flagTable (flags : List (String × String)) : (flagTable flags).filter (fun pair => (Toml.asStr pair.2).isNone) = [] := by
  rw [List.filter_eq_nil_iff]
  intro pair inside
  obtain ⟨_,_,rfl⟩ := List.mem_map.mp inside
  simp [Toml.asStr]

section
variable {table inner : Pairs} {scope : String}

theorem flags_value (is : get table "flags" = some (.Table inner)) : (flags table scope).value = texts inner := by
  rw [value_flags,tableOf_eq_some.mpr is]
  rfl

/-- The settings of a table in order are in order. -/
theorem flags_ascending (ordered : Ordered (.Table table)) : Keyed.Ascending (flags table scope).value := by
  rw [value_flags]
  refine texts_ascending ?_
  cases is : tableOf table "flags" with
  | none => exact List.Pairwise.nil
  | some inner => exact (ordered.get (tableOf_eq_some.mp is)).ascending

/-- Only what is no text is reported. -/
theorem flags_reports (is : get table "flags" = some (.Table inner)) : (flags table scope).reports =
    (inner.filter fun pair => (Toml.asStr pair.2).isNone).flatMap fun pair => (flag scope pair.1 pair.2).reports := by
  have whole : (flags table scope).reports = inner.flatMap fun pair => (flag scope pair.1 pair.2).reports := by
    simp [flags,tableAt,is,Toml.asTable,Reported.reports_mapM]
  rw [whole]
  clear whole is
  induction inner with
  | nil => rfl
  | cons pair inner ih =>
    rw [List.flatMap_cons,ih]
    cases text : Toml.asStr pair.2 with
    | none => simp [text]
    | some value => simp [flag,asText,text]

/-- Where nothing is, it is a table. -/
theorem flags_tabled {value : Value} (is : get table "flags" = some value) (clean : (flags table scope).reports = []) :
    ∃ inner, value = .Table inner := by
  simp only [flags,Reported.reports_bind,List.append_eq_nil_iff] at clean
  exact tableAt_clean.mp clean.1 value is

/-- So all of it is text. -/
theorem flags_clean (is : get table "flags" = some (.Table inner)) (clean : (flags table scope).reports = []) :
    ∀ pair ∈ inner, (Toml.asStr pair.2).isSome := by
  intro pair inside
  rw [flags_reports is,List.flatMap_eq_nil_iff] at clean
  by_contra untold
  have reported := clean pair (List.mem_filter.mpr ⟨inside,by simpa using untold⟩)
  have text : Toml.asStr pair.2 = none := by simpa using untold
  simp [flag,asText,text] at reported

end

/-! ## Entries in words -/

/-- What an entry may be for a text to declare it. -/
structure Declarable (entry : Entry) : Prop where
  sound : Sound entry
  estimate : Figure entry.memoryEstimateMib
  runtime : ∀ name ∈ entry.runtime, Runtime name
  flags : Keyed.Ascending entry.flags

/-- The fields of an entry, in the order of their names. -/
def fieldsOf (entry : Entry) : List (String × Option Value) :=
  [("context_size",some (.Integer entry.contextSize)),
    ("draft_path",entry.draftPath.map .String),
    ("flags",some (.Table (flagTable entry.flags))),
    ("memory_estimate_mib",some (.Integer entry.memoryEstimateMib)),
    ("path",some (.String entry.path)),
    ("projector_path",entry.projectorPath.map .String),
    ("reasoning_effort",entry.reasoningEffort.map .String),
    ("reasoning_format",entry.reasoningFormat.map .String),
    ("residency",some (.String (residencyName entry.residency))),
    ("runtime",entry.runtime.map .String),
    ("startup_timeout_seconds",some (.Integer entry.startupTimeoutSeconds))]

def tableFor (entry : Entry) : Pairs := Keyed.present (fieldsOf entry)

theorem fieldsOf_ascending (entry : Entry) : Keyed.Ascending (fieldsOf entry) := by
  show (["context_size","draft_path","flags","memory_estimate_mib","path","projector_path","reasoning_effort","reasoning_format",
    "residency","runtime","startup_timeout_seconds"] : List String).Pairwise (· < ·)
  decide

section
variable (entry : Entry)

theorem get_tableFor (key : String) : get (tableFor entry) key = ((fieldsOf entry).lookup key).join :=
  Keyed.lookup_present (fieldsOf_ascending entry) key

/-- Every key of the table is one an entry may carry. -/
theorem tableFor_known : ∀ key ∈ Toml.keys (tableFor entry), key ∈ ENTRY_FIELDS := by
  intro key listed
  obtain ⟨⟨key,value⟩,inside,rfl⟩ := List.mem_map.mp listed
  have named : key ∈ (fieldsOf entry).map Prod.fst := List.mem_map.mpr ⟨_,Keyed.mem_present.mp inside,rfl⟩
  have all : ∀ key ∈ (fieldsOf entry).map Prod.fst, key ∈ ENTRY_FIELDS := by
    show ∀ key ∈ (["context_size","draft_path","flags","memory_estimate_mib","path","projector_path","reasoning_effort",
      "reasoning_format","residency","runtime","startup_timeout_seconds"] : List String), key ∈ ENTRY_FIELDS
    decide
  exact all key named

variable {entry} (declarable : Declarable entry)
include declarable

theorem tableFor_ordered : Ordered (.Table (tableFor entry)) := by
  refine .Table (Keyed.present_ascending (fieldsOf_ascending entry)) ?_
  rintro ⟨key,value⟩ inside
  have field := Keyed.mem_present.mp inside
  simp only [fieldsOf,List.mem_cons,Prod.mk.injEq,List.not_mem_nil,or_false] at field
  rcases field with ⟨_,is⟩ | ⟨_,is⟩ | ⟨_,is⟩ | ⟨_,is⟩ | ⟨_,is⟩ | ⟨_,is⟩ | ⟨_,is⟩ | ⟨_,is⟩ | ⟨_,is⟩ | ⟨_,is⟩ | ⟨_,is⟩
  all_goals first
    | (cases is; first | exact .Integer _ | exact .String _ | exact ordered_text declarable.flags)
    | (obtain ⟨_,_,rfl⟩ := Option.map_eq_some_iff.mp is.symm; exact .String _)

end

/-- A field is put into words that are read back as its value. -/
def Says {α : Type} (table : Pairs) (field : String) (parse : Value → Except String α) (value : Option α) : Prop :=
  ∃ render, get table field = value.map render ∧ ∀ x ∈ value, parse (render x) = .ok x

namespace Says
variable {α : Type} {table : Pairs} {scope field : String} {parse : Value → Except String α} {value : Option α}
  (said : Says table field parse value)
include said

/-- It is accepted as it was. -/
theorem accepted_eq : accepted table field parse = value := by
  obtain ⟨render,is,back⟩ := said
  cases value with
  | none =>
    rw [accepted,is]
    rfl
  | some x => exact accepted_eq_some.mpr ⟨_,is,back x rfl⟩

/-- Nothing is reported of it. -/
theorem clean : (optional table scope field parse).reports = [] := by
  refine optional_clean.mpr fun there => ?_
  rw [said.accepted_eq]
  obtain ⟨render,is,_⟩ := said
  rwa [is,Option.isSome_map] at there

/-- Nothing is of one that there has to be, where there is one. -/
theorem clean_required (there : value.isSome) : (required table scope field parse).reports = [] := by
  rw [required_clean,said.accepted_eq]
  exact there

end Says

section
variable {entry : Entry} (declarable : Declarable entry)
include declarable

/-- The words of an entry are read as the entry, and nothing is reported of
    them. -/
theorem entry_tableFor : Read.entry .none entry.id (.Table (tableFor entry)) = ⟨⟨some entry,none⟩,[]⟩ := by
  have said (key : String) := get_tableFor entry key
  have text {field : String} {value : Option String} (is : get (tableFor entry) field = value.map .String) :
      Says (tableFor entry) field asText value := ⟨_,is,fun x _ => asText_eq_ok_iff.mpr rfl⟩
  have location {field : String} {value : Option String} (is : get (tableFor entry) field = value.map .String)
      (relative : ∀ x ∈ value, Relative x) : Says (tableFor entry) field asLocation value :=
    ⟨_,is,fun x inside => asLocation_eq_ok_iff.mpr ⟨rfl,relative x inside⟩⟩
  have figure {field : String} {n : ℕ} (is : get (tableFor entry) field = some (.Integer n)) (figure : Figure n) :
      Says (tableFor entry) field asPositive (some n) := by
    refine ⟨fun n => .Integer n,is,fun x inside => ?_⟩
    cases inside
    exact asPositive_number figure
  have path : Says _ "path" asLocation (some entry.path) :=
    location (said "path") fun x inside => by cases inside; exact declarable.sound.path
  have draft := location (said "draft_path") declarable.sound.draft
  have projector := location (said "projector_path") declarable.sound.projector
  have context := figure (said "context_size") declarable.sound.context
  have estimate := figure (said "memory_estimate_mib") declarable.estimate
  have startup := figure (said "startup_timeout_seconds") declarable.sound.startup
  have format := text (said "reasoning_format")
  have effort := text (said "reasoning_effort")
  have residency : Says (tableFor entry) "residency" asResidency (some entry.residency) :=
    ⟨fun x => .String (residencyName x),said "residency",fun x _ => asResidency_name x⟩
  have runtime : Says (tableFor entry) "runtime" asRuntime entry.runtime :=
    ⟨_,said "runtime",fun x inside => asRuntime_eq_ok_iff.mpr ⟨rfl,declarable.runtime x inside⟩⟩
  have flags_is : get (tableFor entry) "flags" = some (.Table (flagTable entry.flags)) := said "flags"
  have known : (Toml.keys (tableFor entry)).filter (· ∉ ENTRY_FIELDS) = [] := by
    rw [List.filter_eq_nil_iff]
    intro key inside
    simpa using tableFor_known entry key inside
  have value : (Read.entry .none entry.id (.Table (tableFor entry))).value = ⟨some entry,none⟩ := by
    rw [Read.value_entry,Read.entryOf,Read.declaredEstimate,path.accepted_eq,draft.accepted_eq,projector.accepted_eq,
      context.accepted_eq,estimate.accepted_eq,startup.accepted_eq,format.accepted_eq,effort.accepted_eq,residency.accepted_eq,
      runtime.accepted_eq,flags_value flags_is,texts_flagTable]
    simp [Read.Defaults.none,Keyed.extend_nil declarable.flags]
  have reports : (Read.entry .none entry.id (.Table (tableFor entry))).reports = [] := by
    simp only [Read.entry,Toml.asTable,Reported.reports_bind,Reported.reports_pure,reportUnknown,Reported.reports_reportAll,known,
      flags_reports flags_is,text_flagTable,path.clean_required rfl,draft.clean,projector.clean,context.clean,estimate.clean,startup.clean,
      format.clean,effort.clean,residency.clean,runtime.clean,value_optional,context.accepted_eq]
    have settles {scope field : String} : (Read.settled (tableFor entry) (some entry.contextSize) scope field).reports = [] :=
      (Read.settled_clean (tableFor entry)).mpr (.inl rfl)
    simpa using settles
  exact Reported.ext value reports

end

/-! ## Texts -/

/-- What a text may declare: a version, and entries each under a name of its
    own, in the order of their names. -/
structure Declared where
  version : ℕ
  entries : List Entry
  versioned : Figure version
  ascending : (entries.map Entry.id).Pairwise (· < ·)
  declarable : ∀ entry ∈ entries, Declarable entry

namespace Declared
variable (declared : Declared)

/-- The catalog it is. -/
def parsed : Parsed := ⟨declared.version,declared.entries,[],[]⟩

def models : Pairs := declared.entries.map fun entry => (entry.id,.Table (tableFor entry))

/-- What a text says that declares it. -/
def document : Document where
  table := [("models",.Table declared.models),("version",.Integer declared.version)]
  ordered := by
    have keys : (["models","version"] : List String).Pairwise (· < ·) := by decide
    refine .Table keys ?_
    rintro pair inside
    rcases List.mem_cons.mp inside with rfl | last
    · refine .Table ?_ ?_
      · rw [Keyed.Ascending,models,List.map_map]
        exact declared.ascending
      · intro pair listed
        obtain ⟨entry,member,rfl⟩ := List.mem_map.mp listed
        exact tableFor_ordered (declared.declarable entry member)
    · obtain rfl := List.mem_singleton.mp last
      exact .Integer _

theorem walk_document : Read.walk declared.document.table = ⟨(some declared.version,.none,declared.entries,[]),[]⟩ := by
  have version : Says declared.document.table "version" asPositive (some declared.version) := by
    refine ⟨fun n => .Integer n,rfl,fun x inside => ?_⟩
    cases inside
    exact asPositive_number declared.versioned
  have models : get declared.document.table "models" = some (.Table declared.models) := rfl
  have defaults : Read.defaults declared.document.table = ⟨.none,[]⟩ := rfl
  have each (entry : Entry) (inside : entry ∈ declared.entries) := entry_tableFor (declared.declarable entry inside)
  have drafts : (declared.models.mapM fun pair => Read.entry .none pair.1 pair.2) =
      pure (declared.entries.map fun entry => ⟨some entry,none⟩) := by
    rw [Declared.models,List.mapM_map,Reported.mapM_congr (g := fun entry => pure ⟨some entry,none⟩) each]
    exact List.mapM_pure
  have entries : Read.entries declared.document.table .none = pure (declared.entries,[]) := by
    simp [Read.entries,models,tableAt,Toml.asTable,drafts]
  have value : (Read.walk declared.document.table).value = (some declared.version,.none,declared.entries,[]) := by
    simp [Read.walk,Read.version,defaults,entries,version.accepted_eq]
  have reports : (Read.walk declared.document.table).reports = [] := by
    simp [Read.walk,Read.version,defaults,entries,version.clean_required rfl]
  exact Reported.ext value reports

/-- What is put into words is read back as it was. -/
theorem parse_document {toml : String → Except String Document} {text : String} (is : toml text = .ok declared.document) :
    Resolve.parse toml text = .ok declared.parsed := by
  unfold Resolve.parse Read.drafts
  rw [is]
  simp only [walk_document]
  rfl

end Declared

/-! ## What is said by any text -/

/-- What may be left to the defaults. -/
structure Inheritable (defaults : Defaults) : Prop where
  sound : defaults.Sound
  runtime : ∀ name ∈ defaults.runtime, Runtime name
  flags : Keyed.Ascending defaults.flags

theorem accepted_runtime {table : Pairs} {field name : String} (is : accepted table field asRuntime = some name) : Runtime name := by
  obtain ⟨_,_,parsed⟩ := accepted_eq_some.mp is
  exact (asRuntime_eq_ok_iff.mp parsed).2

theorem defaults_inheritable (document : Document) : Inheritable (Read.defaults document.table).value := by
  have sound := Read.defaults_sound document.table
  rw [Read.value_defaults] at sound ⊢
  cases is : tableOf document.table "defaults" with
  | none =>
    rw [is] at sound
    exact ⟨sound,by simp [Defaults.none],List.Pairwise.nil⟩
  | some inner =>
    rw [is] at sound
    exact ⟨sound,fun name named => accepted_runtime named,flags_ascending (document.ordered.get (tableOf_eq_some.mp is))⟩

theorem model_ordered {document : Document} {pair : String × Value} (inside : pair ∈ modelsOf document.table) : Ordered pair.2 := by
  unfold modelsOf at inside
  cases is : tableOf document.table "models" with
  | none =>
    rw [is] at inside
    cases inside
  | some models =>
    rw [is] at inside
    cases document.ordered.get (tableOf_eq_some.mp is) with
    | Table _ all => exact all pair inside

section
variable {toml : String → Except String Document} {text : String} {parsed : Parsed}

/-- An entry that is read from a text without problems may be declared. -/
theorem declarable_of_clean {document : Document} {found : Read.Drafts} (walked : Read.Walked document found)
    (declared : found.undeclared = []) {entry : Entry} (inside : entry ∈ found.entries) : Declarable entry := by
  have figure : Figure entry.memoryEstimateMib := walked.estimate_figure inside (by rw [declared]; exact List.not_mem_nil)
  have inherited : Inheritable found.defaults := by
    rw [walked.defaults]
    exact defaults_inheritable document
  obtain ⟨table,listed,is⟩ := walked.entry_mem inside
  obtain ⟨path,_,is⟩ := Option.bind_eq_some_iff.mp is
  obtain ⟨context,_,is⟩ := Option.map_eq_some_iff.mp is
  refine ⟨walked.entry_sound inside,figure,?_,?_⟩
  · intro name named
    rw [← is] at named
    rcases Option.or_eq_some_iff.mp named with own | ⟨_,left⟩
    · exact accepted_runtime own
    · exact inherited.runtime name left
  · rw [← is]
    exact Keyed.extend_ascending inherited.flags _

/-- Whatever text is parsed, its catalog may be declared. -/
theorem declared_of_parse (is : Resolve.parse toml text = .ok parsed) : ∃ declared : Declared, parsed = declared.parsed := by
  obtain ⟨drafts,read,clean,undeclared,rfl⟩ := Resolve.parse_eq_ok_iff.mp is
  obtain ⟨document,there,walked⟩ := Read.drafts_eq_ok read
  obtain ⟨version,version_is⟩ : ∃ version, accepted document.table "version" asPositive = some version := by
    have reported := List.map_eq_nil_iff.mp (walked.problems.symm.trans clean)
    simp only [Read.walk,Reported.reports_bind,List.append_eq_nil_iff] at reported
    exact Option.isSome_iff_exists.mp (required_clean.mp reported.1)
  have same : drafts.version = some version := by
    rw [Read.drafts,there] at read
    cases read
    simpa [Read.walk,Read.version] using version_is
  refine ⟨⟨version,drafts.entries,Read.accepted_positive version_is,walked.ascending clean,
    fun entry inside => declarable_of_clean walked undeclared inside⟩,?_⟩
  rw [same]
  rfl

/-- The catalogs that texts say are those that may be declared, and each of them is
    what it says once it is written out field by field. -/
theorem parsed_iff_declared : ((∃ (toml : String → Except String Document) (text : String), Resolve.parse toml text = .ok parsed) ↔
      ∃ declared : Declared, parsed = declared.parsed) ∧
    ∀ (declared : Declared) (toml : String → Except String Document) (text : String), toml text = .ok declared.document →
      Resolve.parse toml text = .ok declared.parsed := by
  refine ⟨⟨?_,?_⟩,fun declared _ _ reads => declared.parse_document reads⟩
  · rintro ⟨toml,text,reads⟩
    exact declared_of_parse reads
  · rintro ⟨declared,rfl⟩
    exact ⟨fun _ => .ok declared.document,"",declared.parse_document rfl⟩

end
end Maestro.Written
