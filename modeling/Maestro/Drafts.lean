import Maestro.Fields

/-!
# The shape of a catalog: its version, its defaults and its entries

One walk of the text. Every problem is reported rather than the first, so every
field is read before any of them can fail an entry. An estimate is the one
thing the text may leave out.
-/
namespace Maestro.Read
open Toml (Value Pairs Document get)
open Fields

/-- Fields an entry may carry. -/
def ENTRY_FIELDS : List String :=
  ["path","draft_path","projector_path","context_size","residency","memory_estimate_mib","reasoning_format","runtime",
    "reasoning_effort","startup_timeout_seconds","flags"]

/-- Fields the defaults table may carry; two models never share a location. -/
def DEFAULT_FIELDS : List String :=
  ["context_size","residency","memory_estimate_mib","reasoning_format","runtime","reasoning_effort",
    "startup_timeout_seconds","flags"]

/-- The budget of an entry when neither it nor the defaults table names one. -/
def DEFAULT_STARTUP_TIMEOUT_SECONDS : ℕ := 300

/-- How the defaults table is named in its own problems. -/
def DEFAULTS : String := "catalog defaults"

/-- Everything wrong with one catalog. -/
structure Report where
  problems : List String
deriving DecidableEq, Repr

/-- Settings an entry inherits when it does not set them. -/
structure Defaults where
  contextSize : Option ℕ
  residency : Option Residency
  memoryEstimateMib : Option ℕ
  reasoningFormat : Option String
  runtime : Option String
  reasoningEffort : Option String
  startupTimeoutSeconds : Option ℕ
  flags : List (String × String)
deriving DecidableEq, Repr

/-- The defaults where there is no table of them. -/
def Defaults.none : Defaults := ⟨.none,.none,.none,.none,.none,.none,.none,[]⟩

/-- Everything one walk of the text produced. An entry named in `undeclared` has
    a zero for its estimate, until that is settled. -/
structure Drafts where
  version : Option ℕ
  defaults : Defaults
  entries : List Entry
  undeclared : List String
  problems : List String
deriving DecidableEq, Repr

def version (table : Pairs) : Reported Problem (Option ℕ) := required table "catalog" "version" asPositive

def defaults (table : Pairs) : Reported Problem Defaults := do
  match ← tableAt table "catalog" "defaults" with
  | none => return .none
  | some inner =>
    reportUnknown inner DEFAULTS DEFAULT_FIELDS
    let contextSize ← optional inner DEFAULTS "context_size" asPositive
    let residency ← optional inner DEFAULTS "residency" asResidency
    let memoryEstimateMib ← optional inner DEFAULTS "memory_estimate_mib" asPositive
    let reasoningFormat ← optional inner DEFAULTS "reasoning_format" asText
    let runtime ← optional inner DEFAULTS "runtime" asRuntime
    let reasoningEffort ← optional inner DEFAULTS "reasoning_effort" asText
    let startupTimeoutSeconds ← optional inner DEFAULTS "startup_timeout_seconds" asPositive
    return ⟨contextSize,residency,memoryEstimateMib,reasoningFormat,runtime,reasoningEffort,startupTimeoutSeconds,
      ← flags inner DEFAULTS⟩

/-- A value the entry has one way or another, or a problem saying it has none;
    one that is there but wrong has been reported already. -/
def settled (table : Pairs) (value : Option ℕ) (scope field : String) : Reported Problem (Option ℕ) := do
  if value.isNone && (get table field).isNone then
    .report (problem scope field "is required, and no default supplies it")
  return value

/-- What an entry of the text comes to: itself, and its name where it declares
    no estimate. -/
structure Draft where
  entry : Option Entry
  undeclared : Option String

/-- How an entry is named in its problems. -/
def scopeOf (id : String) : String := s!"entry '{id}'"

def entry (defaults : Defaults) (id : String) (value : Value) : Reported Problem Draft := do
  match Toml.asTable value with
  | none =>
    .report ⟨scopeOf id,none,"must be a table"⟩
    return ⟨none,none⟩
  | some table =>
    reportUnknown table (scopeOf id) ENTRY_FIELDS
    -- The entry's own flags win; the rest are inherited.
    let merged := Keyed.extend defaults.flags (← flags table (scopeOf id))
    let path ← required table (scopeOf id) "path" asLocation
    let draftPath ← optional table (scopeOf id) "draft_path" asLocation
    let projectorPath ← optional table (scopeOf id) "projector_path" asLocation
    let contextSize ← optional table (scopeOf id) "context_size" asPositive
    let contextSize ← settled table (contextSize.or defaults.contextSize) (scopeOf id) "context_size"
    -- Not settled here: what absence means is for the caller to say.
    let memoryEstimateMib := (← optional table (scopeOf id) "memory_estimate_mib" asPositive).or defaults.memoryEstimateMib
    let residency := ((← optional table (scopeOf id) "residency" asResidency).or defaults.residency).getD .OnDemand
    let reasoningFormat := (← optional table (scopeOf id) "reasoning_format" asText).or defaults.reasoningFormat
    let runtime := (← optional table (scopeOf id) "runtime" asRuntime).or defaults.runtime
    let reasoningEffort := (← optional table (scopeOf id) "reasoning_effort" asText).or defaults.reasoningEffort
    let startupTimeoutSeconds := ((← optional table (scopeOf id) "startup_timeout_seconds" asPositive).or
      defaults.startupTimeoutSeconds).getD DEFAULT_STARTUP_TIMEOUT_SECONDS
    let entry := path.bind fun path => contextSize.map fun contextSize =>
      { id := id, path := path, draftPath := draftPath, projectorPath := projectorPath, contextSize := contextSize,
        residency := residency, memoryEstimateMib := memoryEstimateMib.getD 0, reasoningFormat := reasoningFormat,
        reasoningEffort := reasoningEffort, startupTimeoutSeconds := startupTimeoutSeconds, runtime := runtime,
        flags := merged }
    return ⟨entry,if memoryEstimateMib.isNone then some id else none⟩

/-- The entries of the text, and those of them without an estimate. -/
def entries (table : Pairs) (defaults : Defaults) : Reported Problem (List Entry × List String) := do
  if (get table "models").isNone then
    .report (problem "catalog" "models" "is required")
    return ([],[])
  match ← tableAt table "catalog" "models" with
  | none => return ([],[])
  | some models =>
    let drafts ← models.mapM fun (id,value) => entry defaults id value
    return (drafts.filterMap Draft.entry,drafts.filterMap Draft.undeclared)

/-- The walk of a table. -/
def walk (table : Pairs) : Reported Problem (Option ℕ × Defaults × List Entry × List String) := do
  let version ← version table
  let defaults ← defaults table
  let (entries,undeclared) ← entries table defaults
  return (version,defaults,entries,undeclared)

/-- Walks the text once, collecting every problem; text that is not TOML stops
    the walk. -/
def drafts (toml : String → Except String Document) (text : String) : Except Report Drafts :=
  match toml text with
  | .error e => .error ⟨[s!"the catalog is not valid TOML: {e}"]⟩
  | .ok document =>
    let walked := walk document.table
    let (version,defaults,entries,undeclared) := walked.value
    .ok ⟨version,defaults,entries,undeclared,walked.reports.map Problem.text⟩

/-! ## What the walk finds -/

/-- What the defaults table says. -/
def Defaults.of (inner : Pairs) : Defaults where
  contextSize := accepted inner "context_size" asPositive
  residency := accepted inner "residency" asResidency
  memoryEstimateMib := accepted inner "memory_estimate_mib" asPositive
  reasoningFormat := accepted inner "reasoning_format" asText
  runtime := accepted inner "runtime" asRuntime
  reasoningEffort := accepted inner "reasoning_effort" asText
  startupTimeoutSeconds := accepted inner "startup_timeout_seconds" asPositive
  flags := (Fields.flags inner DEFAULTS).value

theorem value_defaults (table : Pairs) :
    (defaults table).value = ((tableOf table "defaults").map Defaults.of).getD .none := by
  unfold defaults
  rw [Reported.value_bind,value_tableAt]
  cases tableOf table "defaults" with
  | none => rfl
  | some inner => simp [Defaults.of]

section Entry
variable (defaults : Defaults) (id : String) (table : Pairs)

/-- The estimate an entry declares, itself or through the defaults. -/
def declaredEstimate : Option ℕ := (accepted table "memory_estimate_mib" asPositive).or defaults.memoryEstimateMib

/-- The entry that a table says, where it names a location and a context. -/
def entryOf : Option Entry :=
  (accepted table "path" asLocation).bind fun path =>
    ((accepted table "context_size" asPositive).or defaults.contextSize).map fun contextSize =>
      { id := id
        path := path
        draftPath := accepted table "draft_path" asLocation
        projectorPath := accepted table "projector_path" asLocation
        contextSize := contextSize
        residency := ((accepted table "residency" asResidency).or defaults.residency).getD .OnDemand
        memoryEstimateMib := (declaredEstimate defaults table).getD 0
        reasoningFormat := (accepted table "reasoning_format" asText).or defaults.reasoningFormat
        reasoningEffort := (accepted table "reasoning_effort" asText).or defaults.reasoningEffort
        startupTimeoutSeconds := ((accepted table "startup_timeout_seconds" asPositive).or
          defaults.startupTimeoutSeconds).getD DEFAULT_STARTUP_TIMEOUT_SECONDS
        runtime := (accepted table "runtime" asRuntime).or defaults.runtime
        flags := Keyed.extend defaults.flags (Fields.flags table (scopeOf id)).value }

@[simp] theorem value_settled (value : Option ℕ) (scope field : String) :
    (settled table value scope field).value = value := by
  unfold settled
  split_ifs <;> rfl

theorem value_entry : (entry defaults id (.Table table)).value =
    ⟨entryOf defaults id table,if (declaredEstimate defaults table).isNone then some id else none⟩ := by
  simp [entry,Toml.asTable,entryOf,declaredEstimate]

theorem settled_clean {value : Option ℕ} {scope field : String} :
    (settled table value scope field).reports = [] ↔ value.isSome ∨ (get table field).isSome := by
  unfold settled
  cases value <;> cases get table field <;> simp

/-- An entry nothing is reported of is there. -/
theorem entry_clean {value : Value} (clean : (entry defaults id value).reports = []) :
    ∃ table, value = .Table table ∧ (entryOf defaults id table).isSome := by
  unfold entry at clean
  cases is : Toml.asTable value with
  | none => simp [is] at clean
  | some table =>
    simp only [is,Reported.reports_bind,List.append_eq_nil_iff] at clean
    obtain ⟨_,_,path,_,_,context,settles,_⟩ := clean
    rw [value_optional,settled_clean] at settles
    obtain ⟨path,path_is⟩ := Option.isSome_iff_exists.mp (required_clean.mp path)
    have context : ((accepted table "context_size" asPositive).or defaults.contextSize).isSome = true := by
      rcases settles with here | there
      · exact here
      · obtain ⟨size,size_is⟩ := Option.isSome_iff_exists.mp (optional_clean.mp context there)
        rw [size_is]
        rfl
    obtain ⟨size,size_is⟩ := Option.isSome_iff_exists.mp context
    refine ⟨table,Toml.asTable_eq_some.mp is,?_⟩
    rw [entryOf,path_is,size_is]
    rfl

variable {defaults id table} {found : Entry} (is : entryOf defaults id table = some found)
include is

/-- What an entry takes from its table. -/
theorem entryOf_eq_some : accepted table "path" asLocation = some found.path ∧
    (accepted table "context_size" asPositive).or defaults.contextSize = some found.contextSize := by
  obtain ⟨path,path_is,is⟩ := Option.bind_eq_some_iff.mp is
  obtain ⟨size,size_is,rfl⟩ := Option.map_eq_some_iff.mp is
  exact ⟨path_is,size_is⟩

theorem entryOf_fields : found.id = id ∧ found.draftPath = accepted table "draft_path" asLocation ∧
    found.projectorPath = accepted table "projector_path" asLocation ∧
    found.memoryEstimateMib = (declaredEstimate defaults table).getD 0 ∧
    found.startupTimeoutSeconds = ((accepted table "startup_timeout_seconds" asPositive).or
      defaults.startupTimeoutSeconds).getD DEFAULT_STARTUP_TIMEOUT_SECONDS := by
  obtain ⟨path,_,is⟩ := Option.bind_eq_some_iff.mp is
  obtain ⟨size,_,rfl⟩ := Option.map_eq_some_iff.mp is
  exact ⟨rfl,rfl,rfl,rfl,rfl⟩

end Entry

/-! ## Figures greater than zero, locations inside the root -/

/-- A figure the catalog accepts. -/
def Figure (n : ℕ) : Prop := 0 < n ∧ n < 2 ^ 32

/-- The defaults' figures are ones the catalog accepts. -/
structure Defaults.Sound (defaults : Defaults) : Prop where
  context : ∀ n ∈ defaults.contextSize, Figure n
  estimate : ∀ n ∈ defaults.memoryEstimateMib, Figure n
  startup : ∀ n ∈ defaults.startupTimeoutSeconds, Figure n

/-- An entry but for its estimate. -/
structure Sound (entry : Entry) : Prop where
  path : Relative entry.path
  draft : ∀ location ∈ entry.draftPath, Relative location
  projector : ∀ location ∈ entry.projectorPath, Relative location
  context : Figure entry.contextSize
  startup : Figure entry.startupTimeoutSeconds

theorem accepted_positive {table : Pairs} {field : String} {n : ℕ} (is : accepted table field asPositive = some n) :
    Figure n := by
  obtain ⟨value,_,parsed⟩ := accepted_eq_some.mp is
  exact (asPositive_eq_ok_iff.mp parsed).2

theorem accepted_location {table : Pairs} {field location : String}
    (is : accepted table field asLocation = some location) : Relative location := by
  obtain ⟨value,_,parsed⟩ := accepted_eq_some.mp is
  exact (asLocation_eq_ok_iff.mp parsed).2

theorem startup_sound : Figure DEFAULT_STARTUP_TIMEOUT_SECONDS := by
  constructor <;> decide

theorem defaults_sound (table : Pairs) : (defaults table).value.Sound := by
  rw [value_defaults]
  cases tableOf table "defaults" with
  | none => constructor <;> simp [Defaults.none]
  | some inner => constructor <;> exact fun n is => accepted_positive is

/-- A figure of the entry itself or of the defaults. -/
theorem inherited_figure {table : Pairs} {field : String} {other : Option ℕ} (others : ∀ n ∈ other, Figure n) {n : ℕ}
    (is : (accepted table field asPositive).or other = some n) : Figure n := by
  rcases Option.or_eq_some_iff.mp is with own | ⟨_,inherited⟩
  · exact accepted_positive own
  · exact others n inherited

section Sound
variable {defaults : Defaults} (sound : defaults.Sound) {table : Pairs}
include sound

theorem declaredEstimate_figure {n : ℕ} (is : declaredEstimate defaults table = some n) : Figure n :=
  inherited_figure sound.estimate is

theorem entryOf_sound {id : String} {found : Entry} (is : entryOf defaults id table = some found) : Sound found := by
  obtain ⟨path_is,context_is⟩ := entryOf_eq_some is
  obtain ⟨_,draft_is,projector_is,_,startup_is⟩ := entryOf_fields is
  refine ⟨accepted_location path_is,?_,?_,inherited_figure sound.context context_is,?_⟩
  · intro location told
    rw [draft_is] at told
    exact accepted_location told
  · intro location told
    rw [projector_is] at told
    exact accepted_location told
  · rw [startup_is]
    cases told : (accepted table "startup_timeout_seconds" asPositive).or defaults.startupTimeoutSeconds with
    | none => exact startup_sound
    | some n => exact inherited_figure sound.startup told

end Sound

/-! ## The entries of the text -/

/-- The models of a text, by name. -/
def modelsOf (table : Pairs) : Pairs := (tableOf table "models").getD []

theorem models_ascending (document : Document) : Keyed.Ascending (modelsOf document.table) := by
  unfold modelsOf
  cases is : tableOf document.table "models" with
  | none => exact List.Pairwise.nil
  | some models => exact (document.ordered.get (tableOf_eq_some.mp is)).ascending

section Entries
variable {table : Pairs} {defaults : Defaults}

theorem value_entries : (entries table defaults).value =
    ((modelsOf table).filterMap fun pair => (entry defaults pair.1 pair.2).value.entry,
      (modelsOf table).filterMap fun pair => (entry defaults pair.1 pair.2).value.undeclared) := by
  cases there : get table "models" with
  | none => simp [entries,modelsOf,tableOf,there]
  | some value =>
    cases is : tableOf table "models" with
    | none => simp [entries,modelsOf,there,is]
    | some models => simp [entries,modelsOf,there,is,Reported.value_mapM,List.filterMap_map]

/-- Where nothing is reported of the entries, nothing is of any of them. -/
theorem entries_clean (clean : (entries table defaults).reports = []) :
    ∀ pair ∈ modelsOf table, (entry defaults pair.1 pair.2).reports = [] := by
  unfold entries at clean
  cases there : get table "models" with
  | none => simp [there] at clean
  | some value =>
    simp only [there,Option.isNone_some,Bool.false_eq_true,if_false,Reported.reports_bind,value_tableAt,
      List.append_eq_nil_iff] at clean
    obtain ⟨tabled,rest⟩ := clean
    obtain ⟨models,rfl⟩ := tableAt_clean.mp tabled value there
    have models_are : tableOf table "models" = some models := tableOf_eq_some.mpr there
    rw [models_are] at rest
    simp only [Reported.reports_bind,List.append_eq_nil_iff,Reported.mapM_clean] at rest
    rw [modelsOf,models_are]
    exact rest.1

/-- Every entry found is what the table under its name says. -/
theorem entry_of_models {pair : String × Value} {found : Entry}
    (is : (entry defaults pair.1 pair.2).value.entry = some found) :
    ∃ table, pair.2 = .Table table ∧ entryOf defaults pair.1 table = some found := by
  obtain ⟨id,value⟩ := pair
  cases tabled : Toml.asTable value with
  | none => simp [entry,tabled] at is
  | some table =>
    obtain rfl := Toml.asTable_eq_some.mp tabled
    rw [value_entry] at is
    exact ⟨table,rfl,is⟩

theorem undeclared_of_models {pair : String × Value} {id : String}
    (is : (entry defaults pair.1 pair.2).value.undeclared = some id) :
    ∃ table, pair = (id,.Table table) ∧ declaredEstimate defaults table = none := by
  obtain ⟨key,value⟩ := pair
  cases tabled : Toml.asTable value with
  | none => simp [entry,tabled] at is
  | some table =>
    obtain rfl := Toml.asTable_eq_some.mp tabled
    rw [value_entry] at is
    dsimp only at is
    split_ifs at is with undeclared
    cases is
    exact ⟨table,rfl,by simpa using undeclared⟩

end Entries

/-- Where something is found for each element, it is found in order. -/
theorem filterMap_names {α β κ : Type} {f : α → Option β} {name : β → κ} {key : α → κ} {xs : List α}
    (each : ∀ x ∈ xs, ∃ y, f x = some y ∧ name y = key x) : (xs.filterMap f).map name = xs.map key := by
  induction xs with
  | nil => rfl
  | cons x xs ih =>
    obtain ⟨y,found,same⟩ := each x List.mem_cons_self
    rw [List.filterMap_cons_some found,List.map_cons,List.map_cons,same,ih]
    intro other inside
    exact each other (List.mem_cons_of_mem _ inside)

/-- What is found keeps its names in order, where some of it is missing. -/
theorem filterMap_sublist {α β κ : Type} {f : α → Option β} {name : β → κ} {key : α → κ}
    (keeps : ∀ x y, f x = some y → name y = key x) (xs : List α) :
    List.Sublist ((xs.filterMap f).map name) (xs.map key) := by
  induction xs with
  | nil => exact List.Sublist.slnil
  | cons x xs ih =>
    rw [List.map_cons]
    cases found : f x with
    | none =>
      rw [List.filterMap_cons_none found]
      exact ih.cons (key x)
    | some y =>
      rw [List.filterMap_cons_some found,List.map_cons,keeps x y found]
      exact ih.cons_cons (key x)

/-- The estimate the text declares for the model of a name. -/
def declaredIn (table : Pairs) (id : String) : Option ℕ :=
  (((modelsOf table).lookup id).bind Toml.asTable).bind (declaredEstimate (defaults table).value)

/-! ## The whole walk -/

section Drafts
variable {toml : String → Except String Document} {text : String} {found : Drafts}

/-- What a walk finds in the text it reads. -/
structure Walked (document : Document) (found : Drafts) : Prop where
  defaults : found.defaults = (defaults document.table).value
  entries : (found.entries,found.undeclared) = (Read.entries document.table found.defaults).value
  problems : found.problems = (walk document.table).reports.map Problem.text

theorem drafts_eq_ok (is : drafts toml text = .ok found) : ∃ document, toml text = .ok document ∧ Walked document found := by
  unfold drafts at is
  cases read : toml text with
  | error e =>
    rw [read] at is
    cases is
  | ok document =>
    rw [read] at is
    cases is
    exact ⟨document,rfl,rfl,rfl,rfl⟩

namespace Walked
variable {document : Document} (walked : Walked document found)
include walked

theorem sound : found.defaults.Sound := by
  rw [walked.defaults]
  exact defaults_sound _

theorem entries_eq : found.entries =
    (modelsOf document.table).filterMap fun pair => (entry found.defaults pair.1 pair.2).value.entry :=
  (Prod.mk.inj (walked.entries.trans value_entries)).1

theorem undeclared_eq : found.undeclared =
    (modelsOf document.table).filterMap fun pair => (entry found.defaults pair.1 pair.2).value.undeclared :=
  (Prod.mk.inj (walked.entries.trans value_entries)).2

/-- Every entry is in the text, under its name. -/
theorem entry_mem {entry : Entry} (inside : entry ∈ found.entries) : ∃ table,
    (entry.id,Value.Table table) ∈ modelsOf document.table ∧ entryOf found.defaults entry.id table = some entry := by
  rw [walked.entries_eq] at inside
  obtain ⟨pair,listed,read⟩ := List.mem_filterMap.mp inside
  obtain ⟨table,tabled,read⟩ := entry_of_models read
  have named := (entryOf_fields read).1
  refine ⟨table,?_,named ▸ read⟩
  rw [named,← tabled]
  exact listed

/-- An entry is named as undeclared when its table is in the text and declares
    no estimate. -/
theorem undeclared_mem {id : String} : id ∈ found.undeclared ↔
    ∃ table, (id,Value.Table table) ∈ modelsOf document.table ∧ declaredEstimate found.defaults table = none := by
  rw [walked.undeclared_eq]
  constructor
  · intro inside
    obtain ⟨pair,listed,read⟩ := List.mem_filterMap.mp inside
    obtain ⟨table,rfl,none_declared⟩ := undeclared_of_models read
    exact ⟨table,listed,none_declared⟩
  · rintro ⟨table,listed,none_declared⟩
    refine List.mem_filterMap.mpr ⟨_,listed,?_⟩
    rw [value_entry,none_declared]
    rfl

theorem entry_sound {entry : Entry} (inside : entry ∈ found.entries) : Sound entry := by
  obtain ⟨table,_,is⟩ := walked.entry_mem inside
  exact entryOf_sound walked.sound is

/-- Where no problem is reported, every model of the text is an entry. -/
theorem names_eq (clean : found.problems = []) : found.entries.map Entry.id = (modelsOf document.table).map Prod.fst := by
  rw [walked.problems,List.map_eq_nil_iff] at clean
  simp only [walk,Reported.reports_bind,List.append_eq_nil_iff] at clean
  have each := entries_clean clean.2.2.1
  rw [walked.entries_eq]
  refine filterMap_names fun pair inside => ?_
  have cleanly := each pair inside
  rw [← walked.defaults] at cleanly
  obtain ⟨table,tabled,there⟩ := entry_clean _ _ cleanly
  obtain ⟨read,is⟩ := Option.isSome_iff_exists.mp there
  refine ⟨read,?_,(entryOf_fields is).1⟩
  rw [tabled,value_entry]
  exact is

/-- So the names of the entries ascend, as those of the text do. -/
theorem ascending (clean : found.problems = []) : (found.entries.map Entry.id).Pairwise (· < ·) := by
  rw [walked.names_eq clean]
  exact models_ascending document

/-- An entry has the estimate the text declares for it, or none. -/
theorem estimate_eq {entry : Entry} (inside : entry ∈ found.entries) :
    entry.memoryEstimateMib = (declaredIn document.table entry.id).getD 0 ∧
      (entry.id ∈ found.undeclared ↔ declaredIn document.table entry.id = none) := by
  obtain ⟨table,listed,is⟩ := walked.entry_mem inside
  have declared : declaredIn document.table entry.id = declaredEstimate found.defaults table := by
    rw [declaredIn,Keyed.lookup_of_mem (models_ascending document) listed,walked.defaults]
    rfl
  rw [declared]
  refine ⟨(entryOf_fields is).2.2.2.1,walked.undeclared_mem.trans ?_⟩
  constructor
  · rintro ⟨other,also,none_declared⟩
    have same := (Keyed.lookup_of_mem (models_ascending document) listed).symm.trans
      (Keyed.lookup_of_mem (models_ascending document) also)
    cases same
    exact none_declared
  · intro none_declared
    exact ⟨table,listed,none_declared⟩

/-- A declared estimate is a figure greater than zero. -/
theorem estimate_figure {entry : Entry} (inside : entry ∈ found.entries) (declared : entry.id ∉ found.undeclared) :
    Figure entry.memoryEstimateMib := by
  obtain ⟨table,listed,is⟩ := walked.entry_mem inside
  cases told : declaredEstimate found.defaults table with
  | none => exact absurd (walked.undeclared_mem.mpr ⟨table,listed,told⟩) declared
  | some n =>
    rw [(entryOf_fields is).2.2.2.1,told]
    exact declaredEstimate_figure walked.sound told

end Walked
end Drafts
end Maestro.Read
