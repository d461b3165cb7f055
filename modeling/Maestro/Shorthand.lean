import Maestro.Written

/-!
# Defaults as a shorthand

Every default is written out in every entry that leaves its field out. The text
says what it said before, down to every problem it has; and where it has none,
the defaults can be dropped.
-/
namespace Maestro.Shorthand
open Toml (Value Pairs Document Ordered get)
open Fields
open Read (Defaults Figure scopeOf ENTRY_FIELDS DEFAULT_FIELDS)
open Written

/-! ## Writing the defaults out -/

/-- The defaults in words, but for the flags. -/
def fieldsOf (defaults : Defaults) : List (String × Option Value) :=
  [("context_size",defaults.contextSize.map fun n : ℕ => .Integer n),
    ("memory_estimate_mib",defaults.memoryEstimateMib.map fun n : ℕ => .Integer n),
    ("reasoning_effort",defaults.reasoningEffort.map .String),
    ("reasoning_format",defaults.reasoningFormat.map .String),
    ("residency",defaults.residency.map fun residency => .String (residencyName residency)),
    ("runtime",defaults.runtime.map .String),
    ("startup_timeout_seconds",defaults.startupTimeoutSeconds.map fun n : ℕ => .Integer n)]

/-- The flags of an entry on top of the defaults'; what is no table of flags
    stays. -/
def flagsOver (flags : List (String × String)) : Option Value → Value
  | none => .Table (flagTable flags)
  | some (.Table inner) => .Table (Keyed.extend (flagTable flags) inner)
  | some value => value

/-- The table of an entry on top of the defaults. -/
def tableOver (defaults : Defaults) (table : Pairs) : Pairs :=
  Keyed.extend (Keyed.present (fieldsOf defaults)) (Keyed.insert "flags" (flagsOver defaults.flags (get table "flags")) table)

def entryOver (defaults : Defaults) : Value → Value
  | .Table table => .Table (tableOver defaults table)
  | value => value

def modelsOver (defaults : Defaults) : Value → Value
  | .Table models => .Table (models.map fun (id,value) => (id,entryOver defaults value))
  | value => value

/-- A table with the value under a key changed. -/
def change (key : String) (f : Value → Value) (table : Pairs) : Pairs :=
  table.map fun (other,value) => (other,if other = key then f value else value)

section
variable (defaults : Defaults) (table : Pairs)

theorem fieldsOf_ascending : Keyed.Ascending (fieldsOf defaults) := by
  show (["context_size","memory_estimate_mib","reasoning_effort","reasoning_format","residency","runtime",
    "startup_timeout_seconds"] : List String).Pairwise (· < ·)
  decide

/-- No default is under a key that the defaults may not carry. -/
theorem fieldsOf_unnamed {key : String} (unnamed : key ∉ DEFAULT_FIELDS) : (fieldsOf defaults).lookup key = none := by
  have named : ∀ key ∈ (fieldsOf defaults).map Prod.fst, key ∈ DEFAULT_FIELDS := by
    show ∀ key ∈ (["context_size","memory_estimate_mib","reasoning_effort","reasoning_format","residency","runtime",
      "startup_timeout_seconds"] : List String), key ∈ DEFAULT_FIELDS
    decide
  cases is : (fieldsOf defaults).lookup key with
  | none => rfl
  | some value => exact absurd (named key (List.mem_map.mpr ⟨_,Keyed.mem_of_lookup is,rfl⟩)) unnamed

variable {table} (ascending : Keyed.Ascending table)
include ascending

omit ascending in
theorem tableOver_ascending : Keyed.Ascending (tableOver defaults table) :=
  Keyed.extend_ascending (Keyed.present_ascending (fieldsOf_ascending defaults)) _

/-- What is under a key is what was, or else the default. -/
theorem get_tableOver {key : String} (other : key ≠ "flags") :
    get (tableOver defaults table) key = (get table key).or ((fieldsOf defaults).lookup key).join := by
  unfold tableOver Toml.get
  rw [Keyed.lookup_extend _ (Keyed.insert_ascending ascending _ _),Keyed.lookup_insert,if_neg other,
    Keyed.lookup_present (fieldsOf_ascending defaults)]

theorem get_flags : get (tableOver defaults table) "flags" = some (flagsOver defaults.flags (get table "flags")) := by
  unfold tableOver
  rw [Toml.get,Keyed.lookup_extend _ (Keyed.insert_ascending ascending _ _),Keyed.lookup_insert,if_pos rfl]
  rfl

/-- No key is added that an entry may not carry. -/
theorem unknown_over (scope : String) : reportUnknown (tableOver defaults table) scope ENTRY_FIELDS = reportUnknown table scope ENTRY_FIELDS := by
  have keys (table : Pairs) : (Toml.keys table).filter (· ∉ ENTRY_FIELDS) =
      (table.filter fun pair => pair.1 ∉ ENTRY_FIELDS).map Prod.fst := by
    rw [Toml.keys,List.filter_map]
    rfl
  unfold reportUnknown
  rw [keys,keys,Keyed.filter_congr (tableOver_ascending defaults) ascending]
  intro key value unknown
  have unknown : key ∉ ENTRY_FIELDS := of_decide_eq_true unknown
  have other : key ≠ "flags" := by
    rintro rfl
    exact unknown (by decide)
  have carried : ∀ key ∈ DEFAULT_FIELDS, key ∈ ENTRY_FIELDS := by decide
  have same := get_tableOver defaults ascending other
  rw [fieldsOf_unnamed defaults fun named => unknown (carried key named),Option.join_none,Option.or_none] at same
  rw [← Toml.get,← Toml.get,same]

/-! ## The flags -/

omit ascending in
theorem flags_congr {table' : Pairs} (same : get table' "flags" = get table "flags") (scope : String) :
    flags table' scope = flags table scope := by
  unfold flags tableAt
  rw [same]

/-- The same is reported of the flags, and on top of the defaults' they are the
    same. -/
theorem flags_over (scope : String) (inherited : Inheritable defaults) (ordered : Ordered (.Table table)) :
    (flags (tableOver defaults table) scope).reports = (flags table scope).reports ∧
      Keyed.extend defaults.flags (flags (tableOver defaults table) scope).value =
        Keyed.extend defaults.flags (flags table scope).value := by
  have is := get_flags defaults ascending
  cases there : get table "flags" with
  | none =>
    have without : flags table scope = ⟨[],[]⟩ := by
      unfold flags tableAt
      rw [there]
      rfl
    rw [there] at is
    rw [flags_reports is,flags_value is,text_flagTable,texts_flagTable,without]
    exact ⟨rfl,Keyed.extend_covered inherited.flags inherited.flags fun _ absent => absent⟩
  | some value =>
    rw [there] at is
    by_cases tabled : ∃ inner, value = .Table inner
    · obtain ⟨inner,rfl⟩ := tabled
      have inner_ascending := (ordered.get there).ascending
      have table_ascending := (ordered_text inherited.flags).ascending
      have over_ascending := Keyed.extend_ascending table_ascending inner
      have looked (key : String) : (Keyed.extend (flagTable defaults.flags) inner).lookup key =
          (inner.lookup key).or ((defaults.flags.lookup key).map Value.String) := by
        rw [Keyed.lookup_extend _ inner_ascending,lookup_flagTable]
      rw [flags_reports is,flags_value is,flags_reports there,flags_value there]
      constructor
      · rw [Keyed.filter_congr over_ascending inner_ascending]
        intro key value untold
        rw [looked]
        cases inner.lookup key with
        | some _ => rfl
        | none =>
          cases defaults.flags.lookup key with
          | none => rfl
          | some text =>
            refine iff_of_false ?_ (by simp)
            intro same
            cases same
            cases untold
      · refine Keyed.eq_of_lookup (Keyed.extend_ascending inherited.flags _) (Keyed.extend_ascending inherited.flags _) fun key => ?_
        rw [Keyed.lookup_extend _ (texts_ascending over_ascending),Keyed.lookup_extend _ (texts_ascending inner_ascending),
          lookup_texts over_ascending,lookup_texts inner_ascending,looked]
        cases inner.lookup key with
        | some _ => rfl
        | none =>
          cases defaults.flags.lookup key with
          | none => rfl
          | some text => rfl
    · have same : get (tableOver defaults table) "flags" = get table "flags" := by
        rw [is,there]
        cases value with
        | Table inner => exact absurd ⟨inner,rfl⟩ tabled
        | _ => rfl
      rw [flags_congr same]
      exact ⟨rfl,rfl⟩

end

/-! ## One field -/

/-- A field says what it did, or else the default. -/
def Inherits {α : Type} (table table' : Pairs) (field : String) (parse : Value → Except String α) (default : Option α) : Prop :=
  ∃ render, get table' field = (get table field).or (default.map render) ∧ ∀ x ∈ default, parse (render x) = .ok x

namespace Inherits
variable {α : Type} {table table' : Pairs} {field scope : String} {parse : Value → Except String α} {default : Option α}
  (inherits : Inherits table table' field parse default)
include inherits

/-- On top of the default it is the same. -/
theorem value : (accepted table' field parse).or default = (accepted table field parse).or default := by
  obtain ⟨render,is,back⟩ := inherits
  unfold accepted
  rw [is]
  cases get table field with
  | some found => rfl
  | none =>
    cases default with
    | none => rfl
    | some x =>
      simp only [Option.none_or,Option.map_some,Option.bind_some,Option.bind_none,back x rfl]
      rfl

/-- The same is reported of it. -/
theorem reports : (optional table' scope field parse).reports = (optional table scope field parse).reports := by
  obtain ⟨render,is,back⟩ := inherits
  unfold Fields.optional
  rw [is]
  cases get table field with
  | some found => rfl
  | none =>
    cases default with
    | none => rfl
    | some x =>
      simp only [Option.none_or,Option.map_some,back x rfl]
      rfl

/-- It takes the default in, where nothing is reported of it. -/
theorem covered (clean : (optional table' scope field parse).reports = []) :
    (accepted table' field parse).or default = accepted table' field parse := by
  cases told : accepted table' field parse with
  | some found => rfl
  | none =>
    obtain ⟨render,is,back⟩ := inherits
    cases default with
    | none => rfl
    | some x =>
      have there : (get table' field).isSome = true := by
        rw [is]
        cases get table field <;> rfl
      have acceptable := optional_clean.mp clean there
      rw [told] at acceptable
      cases acceptable

/-- Where it has no value it has none either way. -/
theorem settled (value : Option ℕ) (there : default.isSome → value.isSome) :
    Read.settled table' value scope field = Read.settled table value scope field := by
  obtain ⟨render,is,_⟩ := inherits
  unfold Read.settled
  cases default with
  | none => rw [is,Option.map_none,Option.or_none]
  | some x =>
    obtain ⟨n,rfl⟩ := Option.isSome_iff_exists.mp (there rfl)
    rfl

end Inherits

section
variable {α : Type} {table table' : Pairs} {field : String} {parse : Value → Except String α}
  (same : get table' field = get table field) (scope : String)
include same

theorem accepted_congr : accepted table' field parse = accepted table field parse := by
  rw [accepted,same,accepted]

theorem optional_congr : Fields.optional table' scope field parse = Fields.optional table scope field parse := by
  unfold Fields.optional
  rw [same]

theorem required_congr : required table' scope field parse = required table scope field parse := by
  unfold required
  rw [same,optional_congr same]

end

/-! ## One entry -/

/-- Every field of the table is what it was, or else the default. -/
structure Over (defaults : Defaults) (table table' : Pairs) : Prop where
  path : get table' "path" = get table "path"
  draft : get table' "draft_path" = get table "draft_path"
  projector : get table' "projector_path" = get table "projector_path"
  context : Inherits table table' "context_size" asPositive defaults.contextSize
  estimate : Inherits table table' "memory_estimate_mib" asPositive defaults.memoryEstimateMib
  residency : Inherits table table' "residency" asResidency defaults.residency
  format : Inherits table table' "reasoning_format" asText defaults.reasoningFormat
  runtime : Inherits table table' "runtime" asRuntime defaults.runtime
  effort : Inherits table table' "reasoning_effort" asText defaults.reasoningEffort
  startup : Inherits table table' "startup_timeout_seconds" asPositive defaults.startupTimeoutSeconds

section
variable {defaults : Defaults} (inherited : Inheritable defaults) {table : Pairs} (ordered : Ordered (.Table table))
include inherited ordered

theorem over_tableOver : Over defaults table (tableOver defaults table) := by
  have ascending := ordered.ascending
  have same {key : String} (unnamed : key ∉ DEFAULT_FIELDS) : get (tableOver defaults table) key = get table key := by
    have other : key ≠ "flags" := by
      rintro rfl
      exact unnamed (by decide)
    rw [get_tableOver defaults ascending other,fieldsOf_unnamed defaults unnamed,Option.join_none,Option.or_none]
  have field {key : String} {value : Option Value} (i : ℕ) (there : (fieldsOf defaults)[i]? = some (key,value)) (other : key ≠ "flags") :
      get (tableOver defaults table) key = (get table key).or value := by
    rw [get_tableOver defaults ascending other,Keyed.lookup_of_mem (fieldsOf_ascending defaults) (List.mem_of_getElem? there)]
    rfl
  constructor
  case path => exact same (by decide)
  case draft => exact same (by decide)
  case projector => exact same (by decide)
  case context => exact ⟨_,field 0 rfl (by decide),fun n told => asPositive_number (inherited.sound.context n told)⟩
  case estimate => exact ⟨_,field 1 rfl (by decide),fun n told => asPositive_number (inherited.sound.estimate n told)⟩
  case residency => exact ⟨_,field 4 rfl (by decide),fun residency _ => asResidency_name residency⟩
  case format => exact ⟨_,field 3 rfl (by decide),fun _ _ => asText_eq_ok_iff.mpr rfl⟩
  case runtime =>
    exact ⟨_,field 5 rfl (by decide),fun name told => asRuntime_eq_ok_iff.mpr ⟨rfl,inherited.runtime name told⟩⟩
  case effort => exact ⟨_,field 2 rfl (by decide),fun _ _ => asText_eq_ok_iff.mpr rfl⟩
  case startup =>
    exact ⟨_,field 6 rfl (by decide),fun n told => asPositive_number (inherited.sound.startup n told)⟩

/-- An entry on top of the defaults is read as it was, with all that is reported
    of it. -/
theorem entry_tableOver (id : String) :
    Read.entry defaults id (.Table (tableOver defaults table)) = Read.entry defaults id (.Table table) := by
  have overlaid := over_tableOver inherited ordered
  have flags := flags_over defaults ordered.ascending (scopeOf id) inherited ordered
  have value : (Read.entry defaults id (.Table (tableOver defaults table))).value = (Read.entry defaults id (.Table table)).value := by
    have estimate : Read.declaredEstimate defaults (tableOver defaults table) = Read.declaredEstimate defaults table := overlaid.estimate.value
    simp only [Read.value_entry,Read.entryOf,estimate,accepted_congr overlaid.path,accepted_congr overlaid.draft,accepted_congr overlaid.projector,
      overlaid.context.value,overlaid.residency.value,overlaid.format.value,overlaid.runtime.value,overlaid.effort.value,overlaid.startup.value,flags.2]
  have settles : Read.settled (tableOver defaults table) ((accepted table "context_size" asPositive).or defaults.contextSize) (scopeOf id)
      "context_size" = Read.settled table ((accepted table "context_size" asPositive).or defaults.contextSize) (scopeOf id) "context_size" :=
    overlaid.context.settled _ fun there => by cases accepted table "context_size" asPositive <;> simp_all
  have reports : (Read.entry defaults id (.Table (tableOver defaults table))).reports =
      (Read.entry defaults id (.Table table)).reports := by
    simp only [Read.entry,Toml.asTable,Reported.reports_bind,Reported.reports_pure,unknown_over defaults ordered.ascending,flags.1,
      required_congr overlaid.path,optional_congr overlaid.draft,optional_congr overlaid.projector,overlaid.context.reports,overlaid.estimate.reports,
      overlaid.residency.reports,overlaid.format.reports,overlaid.runtime.reports,overlaid.effort.reports,overlaid.startup.reports,value_optional,
      overlaid.context.value,settles]
  exact Reported.ext value reports

/-- It is in order. -/
theorem tableOver_ordered : Ordered (.Table (tableOver defaults table)) := by
  refine .Table (tableOver_ascending defaults) ?_
  rintro ⟨key,value⟩ inside
  have flags : Ordered (flagsOver defaults.flags (get table "flags")) := by
    have text := ordered_text inherited.flags
    cases is : get table "flags" with
    | none => exact text
    | some value =>
      have before := ordered.get is
      cases value with
      | Table inner =>
        refine .Table (Keyed.extend_ascending text.ascending inner) fun pair inside => ?_
        cases text with
        | Table _ texts =>
          cases before with
          | Table _ inners => exact (Keyed.mem_extend inside).elim (inners pair) (texts pair)
      | _ => exact before
  rcases Keyed.mem_extend inside with own | default
  · rcases Keyed.mem_insert own with is | before
    · cases is
      exact flags
    · cases ordered with
      | Table _ all => exact all _ before
  · have field := Keyed.mem_present.mp default
    simp only [fieldsOf,List.mem_cons,Prod.mk.injEq,List.not_mem_nil,or_false] at field
    rcases field with ⟨_,is⟩ | ⟨_,is⟩ | ⟨_,is⟩ | ⟨_,is⟩ | ⟨_,is⟩ | ⟨_,is⟩ | ⟨_,is⟩
    all_goals
      obtain ⟨_,_,rfl⟩ := Option.map_eq_some_iff.mp is.symm
      first | exact .Integer _ | exact .String _

end

section
variable {defaults : Defaults} (inherited : Inheritable defaults) {value : Value} (ordered : Ordered value)
include inherited ordered

theorem entry_entryOver (id : String) : Read.entry defaults id (entryOver defaults value) = Read.entry defaults id value := by
  cases value with
  | Table table => exact entry_tableOver inherited ordered id
  | _ => rfl

theorem entryOver_ordered : Ordered (entryOver defaults value) := by
  cases value with
  | Table table => exact tableOver_ordered inherited ordered
  | _ => exact ordered

theorem modelsOver_ordered : Ordered (modelsOver defaults value) := by
  cases value with
  | Table models =>
    cases ordered with
    | Table ascending all =>
      refine .Table ?_ ?_
      · rw [Keyed.Ascending,List.map_map]
        exact ascending
      · intro pair inside
        obtain ⟨model,listed,rfl⟩ := List.mem_map.mp inside
        exact entryOver_ordered inherited (all model listed)
  | _ => exact ordered

end

/-! ## The text -/

section
variable (key : String) (f : Value → Value) (table : Pairs)

theorem get_change (other : String) : get (change key f table) other =
    if other = key then (get table other).map f else get table other := by
  induction table with
  | nil => simp [change,Toml.get]
  | cons pair table ih =>
    have first : change key f (pair :: table) = (pair.1,if pair.1 = key then f pair.2 else pair.2) :: change key f table := rfl
    unfold Toml.get at ih ⊢
    rw [first,Keyed.lookup_cons,Keyed.lookup_cons pair.1,ih]
    split_ifs <;> simp_all

variable {key f table} (ordered : Ordered (.Table table)) (keeps : ∀ value, Ordered value → Ordered (f value))
include ordered keeps

theorem change_ordered : Ordered (.Table (change key f table)) := by
  cases ordered with
  | Table ascending all =>
    refine .Table ?_ ?_
    · rw [Keyed.Ascending,change,List.map_map]
      exact ascending
    · intro pair inside
      obtain ⟨⟨other,value⟩,listed,rfl⟩ := List.mem_map.mp inside
      dsimp only
      split_ifs
      · exact keeps value (all _ listed)
      · exact all _ listed

end

/-- The text with its defaults written out. -/
def spelledOut (document : Document) : Document where
  table := change "models" (modelsOver (Read.defaults document.table).value) document.table
  ordered := change_ordered document.ordered fun _ => modelsOver_ordered (defaults_inheritable document)

/-- So written out, and without the defaults. -/
def inlined (document : Document) : Document where
  table := (spelledOut document).table.filter fun pair => pair.1 ≠ "defaults"
  ordered := by
    cases (spelledOut document).ordered with
    | Table ascending all =>
      refine .Table ?_ fun pair inside => all pair (List.mem_of_mem_filter inside)
      exact ascending.sublist (List.filter_sublist.map Prod.fst)

section
variable {table table' : Pairs} {defaults defaults' : Defaults}

theorem entries_tabled {models : Pairs} (is : get table "models" = some (.Table models)) : Read.entries table defaults = do
    let drafts ← models.mapM fun pair => Read.entry defaults pair.1 pair.2
    return (drafts.filterMap Read.Draft.entry,drafts.filterMap Read.Draft.undeclared) := by
  simp [Read.entries,tableAt,is,Toml.asTable]

/-- Where there is no table of models, the defaults do not matter. -/
theorem entries_untabled (same : get table' "models" = get table "models") (untabled : ∀ models, get table "models" ≠ some (.Table models)) :
    Read.entries table' defaults' = Read.entries table defaults := by
  unfold Read.entries tableAt
  rw [same]
  cases there : get table "models" with
  | none => simp
  | some value =>
    have none_inside : Toml.asTable value = none := by
      cases value with
      | Table models => exact absurd there (untabled models)
      | _ => rfl
    simp [none_inside]

/-- Entries that are each read alike are read alike. -/
theorem entries_over (models : get table' "models" = (get table "models").map (modelsOver defaults))
    (each : ∀ pair ∈ Read.modelsOf table,
      Read.entry defaults' pair.1 (entryOver defaults pair.2) = Read.entry defaults pair.1 pair.2) :
    Read.entries table' defaults' = Read.entries table defaults := by
  by_cases tabled : ∃ inner, get table "models" = some (.Table inner)
  · obtain ⟨inner,there⟩ := tabled
    have listed : Read.modelsOf table = inner := by
      rw [Read.modelsOf,tableOf_eq_some.mpr there]
      rfl
    rw [listed] at each
    have there' : get table' "models" = some (.Table (inner.map fun pair => (pair.1,entryOver defaults pair.2))) := by
      rw [models,there]
      rfl
    have alike : inner.mapM ((fun pair => Read.entry defaults' pair.1 pair.2) ∘ fun pair => (pair.1,entryOver defaults pair.2)) =
        inner.mapM fun pair => Read.entry defaults pair.1 pair.2 := Reported.mapM_congr each
    rw [entries_tabled there,entries_tabled there',List.mapM_map,alike]
  · refine entries_untabled ?_ fun inner there => tabled ⟨inner,there⟩
    rw [models]
    cases there : get table "models" with
    | none => rfl
    | some value =>
      cases value with
      | Table inner => exact absurd ⟨inner,there⟩ tabled
      | _ => rfl

end

section
variable {table table' : Pairs}

theorem version_congr (same : get table' "version" = get table "version") : Read.version table' = Read.version table :=
  required_congr same "catalog"

theorem defaults_congr (same : get table' "defaults" = get table "defaults") : Read.defaults table' = Read.defaults table := by
  unfold Read.defaults tableAt
  rw [same]

end

/-- Written out, the text says what it did, with all that is reported of it. -/
theorem walk_spelledOut (document : Document) : Read.walk (spelledOut document).table = Read.walk document.table := by
  have inherited := defaults_inheritable document
  have get_is := get_change "models" (modelsOver (Read.defaults document.table).value) document.table
  have version := version_congr ((get_is "version").trans (if_neg (by decide)))
  have defaults := defaults_congr ((get_is "defaults").trans (if_neg (by decide)))
  have entries : Read.entries (spelledOut document).table (Read.defaults document.table).value =
      Read.entries document.table (Read.defaults document.table).value := by
    refine entries_over ((get_is "models").trans (if_pos rfl)) fun pair inside => ?_
    exact entry_entryOver inherited (model_ordered inside) pair.1
  have value : (Read.walk (spelledOut document).table).value = (Read.walk document.table).value := by
    simp only [Read.walk,Reported.value_bind,Reported.value_pure,spelledOut,version,defaults,← entries]
  have reports : (Read.walk (spelledOut document).table).reports = (Read.walk document.table).reports := by
    simp only [Read.walk,Reported.reports_bind,Reported.reports_pure,spelledOut,version,defaults,← entries]
  exact Reported.ext value reports

section
variable (capacity : ℕ) (disk : Disk) (root : OsStr) (toml : String → Except String Document) (text : String)

theorem drafts_spelledOut : Read.drafts (fun text => (toml text).map spelledOut) text = Read.drafts toml text := by
  simp only [Read.drafts]
  cases toml text with
  | error e => rfl
  | ok document => simp only [Except.map,walk_spelledOut]

/-- So it is for the two readings of it. -/
theorem read_spelledOut : Resolve.parse (fun text => (toml text).map spelledOut) text = Resolve.parse toml text ∧
    Resolve.read capacity disk root (fun text => (toml text).map spelledOut) text = Resolve.read capacity disk root toml text := by
  unfold Resolve.parse Resolve.read
  rw [drafts_spelledOut]
  exact ⟨rfl,rfl⟩

end

/-! ## Without the defaults -/

section
variable {defaults : Defaults} (inherited : Inheritable defaults) {table : Pairs} (ordered : Ordered (.Table table))
include inherited ordered

/-- The flags have taken the defaults' in, where nothing is reported of them. -/
theorem flags_covered (scope : String) (clean : (flags (tableOver defaults table) scope).reports = []) :
    Keyed.extend defaults.flags (flags (tableOver defaults table) scope).value =
      Keyed.extend [] (flags (tableOver defaults table) scope).value := by
  have own : Keyed.Ascending (flags (tableOver defaults table) scope).value :=
    flags_ascending (tableOver_ordered inherited ordered)
  rw [Keyed.extend_nil own]
  refine Keyed.extend_covered inherited.flags own fun key absent => ?_
  have is := get_flags defaults ordered.ascending
  cases there : get table "flags" with
  | none =>
    rw [there] at is
    rwa [flags_value is,texts_flagTable] at absent
  | some value =>
    rw [there] at is
    obtain ⟨inner,tabled⟩ := flags_tabled is clean
    cases value with
    | Table own_flags =>
      have over_ascending := Keyed.extend_ascending (ordered_text inherited.flags).ascending own_flags
      rw [flags_value is,lookup_texts over_ascending,Keyed.lookup_extend _ (ordered.get there).ascending,lookup_flagTable] at absent
      have text := flags_clean is clean
      cases found : own_flags.lookup key with
      | none =>
        rw [found,Option.none_or] at absent
        cases inside : defaults.flags.lookup key with
        | none => rfl
        | some _ =>
          rw [inside] at absent
          cases absent
      | some value =>
        have whole : (Keyed.extend (flagTable defaults.flags) own_flags).lookup key = some value := by
          rw [Keyed.lookup_extend _ (ordered.get there).ascending,found,Option.some_or]
        have told := text _ (Keyed.mem_of_lookup whole)
        rw [found,Option.some_or,Option.bind_some] at absent
        dsimp only at told
        rw [absent] at told
        cases told
    | _ =>
      cases tabled

/-- So has the entry, where nothing is reported of it. -/
theorem entry_dropped (id : String) (clean : (Read.entry defaults id (.Table (tableOver defaults table))).reports = []) :
    Read.entry .none id (.Table (tableOver defaults table)) = Read.entry defaults id (.Table (tableOver defaults table)) := by
  have overlaid := over_tableOver inherited ordered
  have parts := clean
  simp only [Read.entry,Toml.asTable,Reported.reports_bind,Reported.reports_pure,List.append_eq_nil_iff] at parts
  obtain ⟨_,flags,_,_,_,context,_,estimate,residency,format,runtime,effort,startup,_⟩ := parts
  have flags := flags_covered inherited ordered (scopeOf id) flags
  have context := overlaid.context.covered context
  have estimate : Read.declaredEstimate defaults (tableOver defaults table) = Read.declaredEstimate .none (tableOver defaults table) :=
    (overlaid.estimate.covered estimate).trans Option.or_none.symm
  have value : (Read.entry .none id (.Table (tableOver defaults table))).value =
      (Read.entry defaults id (.Table (tableOver defaults table))).value := by
    simp only [Read.value_entry,Read.entryOf,estimate,context,overlaid.residency.covered residency,overlaid.format.covered format,
      overlaid.runtime.covered runtime,overlaid.effort.covered effort,overlaid.startup.covered startup,flags]
    simp only [Defaults.none,Option.or_none]
  have reports : (Read.entry .none id (.Table (tableOver defaults table))).reports =
      (Read.entry defaults id (.Table (tableOver defaults table))).reports := by
    simp only [Read.entry,Toml.asTable,Reported.reports_bind,Reported.reports_pure,value_optional,context]
    simp only [Defaults.none,Option.or_none]
  exact Reported.ext value reports

end

section
variable {document : Document}

theorem get_inlined {key : String} (other : key ≠ "defaults") : get (inlined document).table key = get (spelledOut document).table key := by
  have kept (table : Pairs) : (table.filter fun pair => pair.1 ≠ "defaults").lookup key = table.lookup key := by
    induction table with
    | nil => rfl
    | cons pair table ih =>
      rw [List.filter_cons]
      split_ifs with keeps
      · rw [Keyed.lookup_cons pair.1,Keyed.lookup_cons pair.1,ih]
      · have named : pair.1 = "defaults" := by simpa using keeps
        rw [Keyed.lookup_cons pair.1,if_neg (named ▸ other),ih]
  exact kept _

theorem get_dropped : get (inlined document).table "defaults" = none := by
  unfold Toml.get inlined
  rw [List.lookup_eq_none_iff]
  intro pair inside
  have other : pair.1 ≠ "defaults" := by simpa using (List.mem_filter.mp inside).2
  exact bne_iff_ne.mpr (Ne.symm other)

/-- Where nothing is reported of a text, it says the same entries without the
    defaults that are written out. -/
theorem walk_inlined (clean : (Read.walk document.table).reports = []) : Read.walk (inlined document).table =
    ⟨((Read.walk document.table).value.1,.none,(Read.walk document.table).value.2.2),[]⟩ := by
  have inherited := defaults_inheritable document
  have get_is := get_change "models" (modelsOver (Read.defaults document.table).value) document.table
  have kept {key : String} (other : key ≠ "defaults") : get (inlined document).table key = get (spelledOut document).table key :=
    get_inlined other
  have version := version_congr ((kept (by decide)).trans ((get_is "version").trans (if_neg (by decide))))
  have defaults : Read.defaults (inlined document).table = pure .none := by
    unfold Read.defaults tableAt
    rw [get_dropped]
    rfl
  have parts := clean
  simp only [Read.walk,Reported.reports_bind,Reported.reports_pure,List.append_eq_nil_iff] at parts
  have entries : Read.entries (inlined document).table .none = Read.entries document.table (Read.defaults document.table).value := by
    refine entries_over ((kept (by decide)).trans ((get_is "models").trans (if_pos rfl))) fun pair inside => ?_
    have ordered := model_ordered inside
    have entry_clean := Read.entries_clean parts.2.2.1 pair inside
    obtain ⟨table,tabled,_⟩ := Read.entry_clean _ _ entry_clean
    rw [tabled] at ordered entry_clean ⊢
    have same := entry_tableOver inherited ordered pair.1
    exact (entry_dropped inherited ordered pair.1 (by rw [same]; exact entry_clean)).trans same
  have value : (Read.walk (inlined document).table).value =
      ((Read.walk document.table).value.1,.none,(Read.walk document.table).value.2.2) := by
    simp only [Read.walk,Reported.value_bind,Reported.value_pure,version,defaults,entries]
  have reports : (Read.walk (inlined document).table).reports = [] := by
    simp only [Read.walk,Reported.reports_bind,Reported.reports_pure,Reported.value_pure,version,defaults,entries,parts,List.append_nil]
  exact Reported.ext value reports

end

section
variable {toml : String → Except String Document} {text : String} {parsed : Resolve.Parsed}

theorem parse_inlined (is : Resolve.parse toml text = .ok parsed) :
    Resolve.parse (fun text => (toml text).map inlined) text = .ok parsed := by
  obtain ⟨drafts,read,clean,undeclared,rfl⟩ := Resolve.parse_eq_ok_iff.mp is
  unfold Read.drafts at read
  cases there : toml text with
  | error e =>
    rw [there] at read
    cases read
  | ok document =>
    rw [there] at read
    cases read
    refine Resolve.parse_eq_ok_iff.mpr ⟨⟨_,.none,_,_,[]⟩,?_,rfl,undeclared,rfl⟩
    simp only [Read.drafts,there,Except.map,walk_inlined (List.map_eq_nil_iff.mp clean)]
    rfl

/-- The defaults are a shorthand: written out they change neither reading, in
    what it accepts and in what it reports, and where the text is parsed they
    can be dropped then. -/
theorem defaults_written_out (capacity : ℕ) (disk : Disk) (root : OsStr) :
    Resolve.parse (fun text => (toml text).map spelledOut) text = Resolve.parse toml text ∧
      Resolve.read capacity disk root (fun text => (toml text).map spelledOut) text = Resolve.read capacity disk root toml text ∧
        ∀ parsed, Resolve.parse toml text = .ok parsed → Resolve.parse (fun text => (toml text).map inlined) text = .ok parsed := by
  obtain ⟨parses,reads⟩ := read_spelledOut capacity disk root toml text
  exact ⟨parses,reads,fun _ is => parse_inlined is⟩

end

/-! ## A context that is shared -/

def textD : String :=
  "version = 1\n[defaults]\ncontext_size = 4096\nmemory_estimate_mib = 512\n[models.m]\npath = \"m.gguf\"\n"

def documentD : Document where
  table := [("defaults",.Table [("context_size",.Integer 4096),("memory_estimate_mib",.Integer 512)]),
    ("models",.Table [("m",.Table [("path",.String "m.gguf")])]),("version",.Integer 1)]
  ordered := by
    have defaults : Ordered (.Table [("context_size",.Integer 4096),("memory_estimate_mib",.Integer 512)]) :=
      .Table (by decide) (by simpa using ⟨.Integer _,.Integer _⟩)
    have path : Ordered (.Table [("path",.String "m.gguf")]) := .Table (by decide) (by simpa using .String _)
    have models : Ordered (.Table [("m",.Table [("path",.String "m.gguf")])]) := .Table (by decide) (by simpa using path)
    exact .Table (by decide) (by simpa using ⟨defaults,models,.Integer 1⟩)

/-- The entry has it itself, then. -/
theorem shared_context_written_out : ∃ parsed, Resolve.parse (fun text => (Resolve.readerOf textD documentD text).map inlined) textD = .ok parsed ∧
    (parsed.entries.map Entry.contextSize) = [4096] := by
  have served : (Resolve.parse (Resolve.readerOf textD documentD) textD).toOption.map (fun parsed => parsed.entries.map Entry.contextSize) =
      some [4096] := by decide +kernel
  obtain ⟨parsed,is,sizes⟩ := Option.map_eq_some_iff.mp served
  have parses := Reading.toOption_eq_some.mp is
  exact ⟨parsed,(defaults_written_out 0 (Resolve.diskM Estimate.zip) Resolve.rootM).2.2 parsed parses,sizes⟩

end Maestro.Shorthand
