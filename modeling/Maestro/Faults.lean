import Maestro.Agreement

/-!
# The faults of an entry

The problems of the walk, told apart by whom they are about, which field of
theirs, and what they say. What is said of a field an entry must have follows
from that field and from what the defaults supply.
-/
namespace Maestro.Faults
open Toml (Value Pairs Document get)
open Fields (Problem problem asPositive asLocation asText accepted tableOf reportUnknown tableAt optional required flag flags)
open Read (Defaults Report scopeOf DEFAULTS ENTRY_FIELDS modelsOf walk version defaults entry entries settled)

/-! ## What is wrong with a catalog -/

/-- Everything wrong with a catalog that is read without a root. -/
def parse (table : Pairs) : List Problem :=
  (walk table).reports ++ (walk table).value.2.2.2.map fun id =>
    problem (scopeOf id) "memory_estimate_mib" "is required, and no default supplies it"

/-- The problems of a reading, where it has any. -/
def problemsOf : Except Report Resolve.Parsed → List String
  | .ok _ => []
  | .error report => report.problems

/-- What a text is refused for is its problems, put into words. -/
theorem problemsOf_parse {toml : String → Except String Document} {text : String} {document : Document}
    (reads : toml text = .ok document) :
    problemsOf (Resolve.parse toml text) = (parse document.table).map Problem.text := by
  rw [parse,List.map_append,List.map_map,Resolve.parse,Read.drafts,reads]
  dsimp only [Function.comp_def]
  split_ifs with clean
  · exact clean.symm
  · rfl

/-! ## What is said of one field -/

section
variable (scope field : String)

/-- What problems say of one field. -/
def said (problems : List Problem) : List String :=
  (problems.filter fun problem => problem.scope = scope ∧ problem.field = some field).map Problem.complaint

@[simp] theorem said_nil : said scope field [] = [] := rfl

@[simp] theorem said_append (before behind : List Problem) :
    said scope field (before ++ behind) = said scope field before ++ said scope field behind := by
  unfold said
  rw [List.filter_append,List.map_append]

/-- Problems about one field are said of that field alone. -/
@[simp] theorem said_about (other name : String) (complaints : List String) :
    said scope field (complaints.map (problem other name)) =
      if other = scope ∧ name = field then complaints else [] := by
  have about (complaint : String) : ((problem other name complaint).scope = scope ∧ (problem other name complaint).field = some field) ↔
      other = scope ∧ name = field := by simp
  unfold said
  rw [List.filter_map,List.map_map]
  simp only [Function.comp_def,about,Fields.problem_complaint]
  split_ifs with same
  · simp [same]
  · simp [same]

variable {scope field} in
theorem said_other {problems : List Problem}
    (others : ∀ problem ∈ problems, problem.scope ≠ scope ∨ problem.field ≠ some field) : said scope field problems = [] := by
  unfold said
  rw [List.map_eq_nil_iff,List.filter_eq_nil_iff]
  intro problem inside both
  obtain ⟨its,fields⟩ := of_decide_eq_true both
  exact (others problem inside).elim (absurd its) (absurd fields)

end

/-- What is wrong with the value of a field, where there is one. -/
def wrong {α : Type} (table : Pairs) (field : String) (parse : Value → Except String α) : Option String :=
  (get table field).bind fun value => match parse value with
    | .ok _ => none
    | .error complaint => some complaint

section
variable (table : Pairs) (scope field : String)

theorem reports_optional {α : Type} (parse : Value → Except String α) : (optional table scope field parse).reports =
    (wrong table field parse).toList.map (problem scope field) := by
  unfold Fields.optional wrong
  cases get table field with
  | none => rfl
  | some value =>
    dsimp only [Option.bind_some]
    cases parse value <;> rfl

theorem reports_required {α : Type} (parse : Value → Except String α) : (required table scope field parse).reports =
    (if (get table field).isNone then ["is required"] else (wrong table field parse).toList).map
      (problem scope field) := by
  unfold required
  split_ifs
  · rfl
  · exact reports_optional table scope field parse

theorem reports_settled (value : Option ℕ) : (settled table value scope field).reports =
    (if value.isNone && (get table field).isNone then ["is required, and no default supplies it"] else []).map
      (problem scope field) := by
  unfold settled
  split_ifs <;> rfl

/-- A field the schema defines is not said to be unknown. -/
theorem said_unknown {known : List String} (defined : field ∈ known) (other : String) :
    said scope field (reportUnknown table other known).reports = [] := by
  refine said_other fun problem inside => .inr ?_
  obtain ⟨key,unknown,rfl⟩ := List.mem_map.mp inside
  rintro is
  cases is
  simp [defined] at unknown

/-- A reader of one field reports that field. -/
theorem each_optional {α : Type} {parse : Value → Except String α} {p : Problem → Prop}
    (all : ∀ complaint, p (problem scope field complaint)) : (optional table scope field parse).Each p := by
  unfold Reported.Each
  rw [reports_optional]
  exact List.forall_mem_map.mpr fun complaint _ => all complaint

theorem each_required {α : Type} {parse : Value → Except String α} {p : Problem → Prop}
    (all : ∀ complaint, p (problem scope field complaint)) : (required table scope field parse).Each p := by
  unfold Reported.Each
  rw [reports_required]
  exact List.forall_mem_map.mpr fun complaint _ => all complaint

theorem each_settled {value : Option ℕ} {p : Problem → Prop} (all : ∀ complaint, p (problem scope field complaint)) :
    (settled table value scope field).Each p := by
  unfold Reported.Each
  rw [reports_settled]
  exact List.forall_mem_map.mpr fun complaint _ => all complaint

theorem each_tableAt {p : Problem → Prop} (all : ∀ complaint, p (problem scope field complaint)) :
    (tableAt table scope field).Each p := by
  unfold tableAt
  cases get table field with
  | none => simp
  | some value => cases is : Toml.asTable value <;> simp [is,all]

theorem each_unknown {known : List String} {p : Problem → Prop} (all : ∀ key complaint, p (problem scope key complaint)) :
    (reportUnknown table scope known).Each p := by
  unfold reportUnknown
  exact List.forall_mem_map.mpr fun key _ => all key _

theorem each_flags {p : Problem → Prop} (all : ∀ complaint, p (problem scope "flags" complaint)) : (flags table scope).Each p := by
  unfold flags
  refine (Reported.each_bind p _ _).mpr ⟨each_tableAt table scope "flags" all,?_⟩
  cases (tableAt table scope "flags").value with
  | none => simp
  | some inner =>
    simp only [Reported.each_bind,Reported.each_mapM,Reported.each_pure,and_true]
    intro pair _
    unfold flag
    cases asText pair.2 <;> simp [all]

end

/-- Every problem an entry has is about it. -/
theorem entry_scope (defaults : Defaults) (id : String) (value : Value) :
    (entry defaults id value).Each fun problem => problem.scope = scopeOf id := by
  unfold entry
  cases Toml.asTable value with
  | none => simp
  | some table => simp [each_unknown,each_flags,each_optional,each_required,each_settled]

/-! ## The fields an entry must have -/

/-- A field without which there is no entry. -/
inductive Needed
  | Path
  | ContextSize
  | MemoryEstimateMib
deriving DecidableEq, Repr

namespace Needed

def name : Needed → String
  | .Path => "path"
  | .ContextSize => "context_size"
  | .MemoryEstimateMib => "memory_estimate_mib"

/-- What is wrong with the value an entry has for it. -/
def wrong (table : Pairs) : Needed → Option String
  | .Path => Faults.wrong table "path" asLocation
  | .ContextSize => Faults.wrong table "context_size" asPositive
  | .MemoryEstimateMib => Faults.wrong table "memory_estimate_mib" asPositive

/-- Whether the defaults have a value for it. -/
def supplied (defaults : Defaults) : Needed → Bool
  | .Path => false
  | .ContextSize => defaults.contextSize.isSome
  | .MemoryEstimateMib => defaults.memoryEstimateMib.isSome

/-- What is said where there is none. -/
def missing : Needed → String
  | .Path => "is required"
  | _ => "is required, and no default supplies it"

/-- What there is to say of it: what is wrong with its value, or else that there
    is none. -/
def due (defaults : Defaults) (table : Pairs) (self : Needed) : List String :=
  if (get table self.name).isSome then (self.wrong table).toList
  else if self.supplied defaults then [] else [self.missing]

end Needed

section
variable (defaults : Defaults) (id : String) (table : Pairs)

theorem wrong_eq_none {α : Type} {field : String} {parse : Value → Except String α} (there : (get table field).isSome) :
    wrong table field parse = none ↔ (accepted table field parse).isSome := by
  unfold wrong accepted
  obtain ⟨value,is⟩ := Option.isSome_iff_exists.mp there
  rw [is,Option.bind_some,Option.bind_some]
  cases parse value <;> simp [Except.toOption]

/-- What an entry's own problems say of a field. -/
theorem said_entry (field : Needed) : said (scopeOf id) field.name (entry defaults id (.Table table)).reports =
    if field = .MemoryEstimateMib then (field.wrong table).toList else field.due defaults table := by
  have apart : some "flags" ≠ some field.name := by cases field <;> decide
  have settings : said (scopeOf id) field.name (flags table (scopeOf id)).reports = [] :=
    said_other (each_flags table (scopeOf id) (p := fun problem => problem.scope ≠ scopeOf id ∨ problem.field ≠ some field.name)
      fun _ => .inr apart)
  have known : said (scopeOf id) field.name (reportUnknown table (scopeOf id) ENTRY_FIELDS).reports = [] :=
    said_unknown table (scopeOf id) field.name (by cases field <;> decide) _
  simp only [entry,Toml.asTable,Reported.reports_bind,Reported.reports_pure,said_append,settings,known,reports_optional,
    reports_required,reports_settled,said_about,Fields.value_optional]
  cases field with
  | Path =>
    cases is : get table "path" <;> simp [Needed.name,Needed.due,Needed.wrong,Needed.supplied,Needed.missing,is]
  | ContextSize =>
    cases is : get table "context_size" with
    | none =>
      cases supplied : defaults.contextSize <;>
        simp [Needed.name,Needed.due,Needed.supplied,Needed.missing,wrong,accepted,is,supplied]
    | some value => simp [Needed.name,Needed.due,Needed.wrong,is]
  | MemoryEstimateMib => simp [Needed.name,Needed.wrong]

end

/-! ## What is said of an entry of a catalog -/

theorem scopeOf_injective {id other : String} (same : scopeOf id = scopeOf other) : id = other := by
  unfold scopeOf at same
  have letters := congrArg String.toList same
  simp only [toString,String.toList_append,List.append_cancel_right_eq,List.append_cancel_left_eq] at letters
  exact String.ext letters

theorem scopeOf_ne {scope : String} (other : scope.toList.head? ≠ some 'e') (id : String) : scope ≠ scopeOf id := by
  rintro rfl
  unfold scopeOf at other
  simp [toString] at other

/-- Of the problems of all models, those said of one are its own. -/
theorem said_models {models : Pairs} (ascending : Keyed.Ascending models) {f : String × Value → List Problem}
    (own : ∀ pair, ∀ problem ∈ f pair, problem.scope = scopeOf pair.1) {pair : String × Value} (listed : pair ∈ models)
    (field : String) : said (scopeOf pair.1) field (models.flatMap f) = said (scopeOf pair.1) field (f pair) := by
  have others {before : Pairs} (apart : ∀ other ∈ before, other.1 ≠ pair.1) :
      said (scopeOf pair.1) field (before.flatMap f) = [] := by
    refine said_other fun problem inside => .inl ?_
    obtain ⟨other,within,made⟩ := List.mem_flatMap.mp inside
    rw [own other problem made]
    exact fun same => apart other within (scopeOf_injective same)
  obtain ⟨before,behind,rfl⟩ := List.append_of_mem listed
  have distinct := ascending.distinct
  rw [List.map_append,List.map_cons,List.nodup_append] at distinct
  obtain ⟨_,after,between⟩ := distinct
  have in_front (other) (within : other ∈ before) : other.1 ≠ pair.1 :=
    between other.1 (List.mem_map_of_mem within) pair.1 List.mem_cons_self
  have later (other) (within : other ∈ behind) : other.1 ≠ pair.1 := by
    intro same
    exact (List.nodup_cons.mp after).1 (same ▸ List.mem_map_of_mem within)
  rw [List.flatMap_append,List.flatMap_cons,said_append,said_append,others in_front,others later,List.nil_append,List.append_nil]

section
variable {document : Document} {id : String} {table : Pairs} (listed : (id,Value.Table table) ∈ modelsOf document.table)

theorem catalog_other (field : String) {problems : List Problem} (others : ∀ problem ∈ problems,
    problem.scope = "catalog" ∨ problem.scope = DEFAULTS) : said (scopeOf id) field problems = [] := by
  refine said_other fun problem inside => .inl ?_
  rcases others problem inside with is | is
  · rw [is]
    exact scopeOf_ne (by decide) id
  · rw [is]
    exact scopeOf_ne (by decide) id

theorem defaults_scope (table : Pairs) :
    (defaults table).Each fun problem => problem.scope = "catalog" ∨ problem.scope = DEFAULTS := by
  unfold defaults
  refine (Reported.each_bind _ _ _).mpr ⟨each_tableAt _ _ _ fun _ => .inl rfl,?_⟩
  cases (tableAt table "catalog" "defaults").value with
  | none => simp
  | some inner => simp [each_unknown,each_flags,each_optional]

include listed

theorem said_entries (field : Needed) :
    said (scopeOf id) field.name (entries document.table (defaults document.table).value).reports =
      said (scopeOf id) field.name (entry (defaults document.table).value id (.Table table)).reports := by
  cases tabled : tableOf document.table "models" with
  | none =>
    rw [modelsOf,tabled] at listed
    cases listed
  | some models =>
    have there := Fields.tableOf_eq_some.mp tabled
    have models_are : modelsOf document.table = models := by rw [modelsOf,tabled,Option.getD_some]
    have own := said_models (models_are ▸ Read.models_ascending document)
      (f := fun pair => (entry (defaults document.table).value pair.1 pair.2).reports)
      (fun pair => entry_scope _ pair.1 pair.2) (models_are ▸ listed) field.name
    rw [← own]
    unfold entries
    simp [there,tableAt,Toml.asTable,Reported.reports_mapM]

/-- What is said besides, of an entry the text gives no estimate. -/
theorem said_undeclared (field : Needed) :
    said (scopeOf id) field.name ((walk document.table).value.2.2.2.map fun id =>
      problem (scopeOf id) "memory_estimate_mib" "is required, and no default supplies it") =
        if field = .MemoryEstimateMib ∧ (Read.declaredEstimate (defaults document.table).value table).isNone
          then [field.missing] else [] := by
  have undeclared : (walk document.table).value.2.2.2 = (modelsOf document.table).filterMap fun pair =>
      (entry (defaults document.table).value pair.1 pair.2).value.undeclared := by
    exact congrArg Prod.snd Read.value_entries
  rw [undeclared,List.map_filterMap,List.filterMap_eq_flatMap_toList]
  refine (said_models (Read.models_ascending document) ?_ listed field.name).trans ?_
  · rintro pair problem inside
    obtain ⟨other,named,rfl⟩ := Option.map_eq_some_iff.mp (Option.mem_toList.mp inside)
    obtain ⟨_,rfl,_⟩ := Read.undeclared_of_models named
    rfl
  · rw [Read.value_entry]
    have about := said_about (scopeOf id) field.name (scopeOf id) "memory_estimate_mib"
      ["is required, and no default supplies it"]
    split_ifs with none_declared both both
    · obtain ⟨rfl,_⟩ := both
      exact about.trans (if_pos ⟨rfl,rfl⟩)
    · rw [if_neg fun same => both ⟨?_,none_declared⟩] at about
      · exact about
      · cases field with
        | MemoryEstimateMib => rfl
        | _ => exact absurd same.2 (by decide)
    · exact absurd both.2 none_declared
    · rfl

/-- What is said of a field of an entry: what there is to say, but for an
    estimate that is wrong and has nothing in its place. -/
theorem said_parse (field : Needed) : said (scopeOf id) field.name (parse document.table) =
    field.due (defaults document.table).value table ++
      if field = .MemoryEstimateMib ∧ (field.wrong table).isSome ∧ ¬ field.supplied (defaults document.table).value
        then [field.missing] else [] := by
  have versions : said (scopeOf id) field.name (version document.table).reports = [] :=
    catalog_other field.name (each_required _ _ _ fun _ => .inl rfl)
  rw [parse,said_append,said_undeclared listed]
  simp only [walk,Reported.reports_bind,Reported.reports_pure,said_append,versions,
    catalog_other field.name (defaults_scope document.table),said_entries listed,said_entry,List.nil_append,
    List.append_nil]
  cases field with
  | Path => simp
  | ContextSize => simp
  | MemoryEstimateMib =>
    have declared : (Read.declaredEstimate (defaults document.table).value table).isNone ↔
        accepted table "memory_estimate_mib" asPositive = none ∧
          ¬ Needed.supplied (defaults document.table).value .MemoryEstimateMib := by
      rw [Option.isNone_iff_eq_none,Read.declaredEstimate,Option.or_eq_none_iff]
      simp [Needed.supplied]
    simp only [declared,true_and,if_true]
    cases there : get table "memory_estimate_mib" with
    | none =>
      cases supplied : Needed.supplied (defaults document.table).value .MemoryEstimateMib <;>
        simp [Needed.due,Needed.name,Needed.wrong,wrong,accepted,there,supplied]
    | some value =>
      have some_there : (get table "memory_estimate_mib").isSome := by rw [there]; rfl
      have right : wrong table "memory_estimate_mib" asPositive = none ↔ _ := wrong_eq_none table some_there
      cases said_wrong : wrong table "memory_estimate_mib" asPositive with
      | none =>
        obtain ⟨n,is⟩ := Option.isSome_iff_exists.mp (right.mp said_wrong)
        simp [Needed.due,Needed.name,Needed.wrong,said_wrong,is,there]
      | some complaint =>
        have refused : accepted table "memory_estimate_mib" asPositive = none := by
          rw [← Option.not_isSome_iff_eq_none,← right,said_wrong]
          exact fun is => by cases is
        simp [Needed.due,Needed.name,Needed.wrong,said_wrong,refused,there]

end

/-! ## Once, and as what it is -/

/-- What is said of a field of an entry is what there is to say of it, and the
    same is said in any other catalog where the field has that value, or the
    defaults have one as they have here. -/
structure ReportedOnce (document : Document) (id : String) (table : Pairs) (field : Needed) : Prop where
  due : said (scopeOf id) field.name (parse document.table) = field.due (defaults document.table).value table
  alone : ∀ (other : Document) (id' : String) (table' : Pairs), (id',Value.Table table') ∈ modelsOf other.table →
    get table' field.name = get table field.name →
      field.supplied (defaults other.table).value = field.supplied (defaults document.table).value →
        said (scopeOf id') field.name (parse other.table) = said (scopeOf id) field.name (parse document.table)

/-- Every problem of a text is told apart, and a field is reported once exactly
    where it is no wrong estimate in whose place the defaults have none. -/
theorem reported_once_iff {toml : String → Except String Document} {text : String} {document : Document}
    (reads : toml text = .ok document) {id : String} {table : Pairs} (listed : (id,Value.Table table) ∈ modelsOf document.table)
    (field : Needed) :
    problemsOf (Resolve.parse toml text) = (parse document.table).map Problem.text ∧
      (ReportedOnce document id table field ↔
        ¬ (field = .MemoryEstimateMib ∧ (field.wrong table).isSome ∧
          ¬ field.supplied (defaults document.table).value)) := by
  refine ⟨problemsOf_parse reads,?_⟩
  constructor
  · rintro ⟨due,_⟩ twice
    rw [said_parse listed,if_pos twice] at due
    simp at due
  · intro once
    refine ⟨?_,?_⟩
    · rw [said_parse listed,if_neg once,List.append_nil]
    · intro other id' table' listed' same supplied
      have wrongs : field.wrong table' = field.wrong table := by
        cases field <;> exact congrArg (Option.bind · _) same
      rw [said_parse listed,said_parse listed',wrongs,supplied,Needed.due,Needed.due,same,wrongs,supplied]

/-! ## An estimate of zero -/

/-- A model with an estimate of its own. -/
def textE (mib : ℤ) : String :=
  s!"version = 1\n[models.m]\npath = \"m.gguf\"\ncontext_size = 4096\nmemory_estimate_mib = {mib}\n"

def pairsE (mib : ℤ) : Pairs :=
  [("context_size",.Integer 4096),("memory_estimate_mib",.Integer mib),("path",.String "m.gguf")]

def documentE (mib : ℤ) : Document where
  table := [("models",.Table [("m",.Table (pairsE mib))]),("version",.Integer 1)]
  ordered := by
    have names : Keyed.Ascending (pairsE mib) := by
      show List.Pairwise (· < ·) ["context_size","memory_estimate_mib","path"]
      decide
    have tables : Keyed.Ascending [("models",Value.Table [("m",.Table (pairsE mib))]),("version",.Integer 1)] := by
      show List.Pairwise (· < ·) ["models","version"]
      decide
    have m : Toml.Ordered (.Table (pairsE mib)) :=
      .Table names (by simpa [pairsE] using ⟨.Integer 4096,.Integer mib,.String "m.gguf"⟩)
    have models : Toml.Ordered (.Table [("m",.Table (pairsE mib))]) := .Table (List.pairwise_singleton _ _) (by simpa using m)
    exact .Table tables (by simpa using ⟨models,.Integer 1⟩)

theorem good_estimate_unreported :
    problemsOf (Resolve.parse (Resolve.readerOf (textE 512) (documentE 512)) (textE 512)) = [] ∧
      ReportedOnce (documentE 512) "m" (pairsE 512) .MemoryEstimateMib := by
  have reads : Resolve.readerOf (textE 512) (documentE 512) (textE 512) = .ok (documentE 512) := if_pos rfl
  have listed : ("m",Value.Table (pairsE 512)) ∈ modelsOf (documentE 512).table := by
    simp [modelsOf,documentE,tableOf,Toml.get,Toml.asTable]
  have once := reported_once_iff reads listed .MemoryEstimateMib
  exact ⟨once.1.trans (by decide +kernel),once.2.mpr (by decide)⟩

theorem zero_estimate_reported_twice : ¬ ReportedOnce (documentE 0) "m" (pairsE 0) .MemoryEstimateMib := by
  rintro ⟨due,_⟩
  exact absurd due (by decide +kernel)

end Maestro.Faults
