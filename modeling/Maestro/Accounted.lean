import Maestro.Discovered

/-!
# What becomes of every file of the walk

The files are come by one after the other, and each has its own part of the
entries and of the notes. Its part tells what became of it, but for a file whose
name has nothing an identifier could be made of.
-/
namespace Maestro.Discover
open Read (Defaults)
open Estimate (derive resolve)

/-! ## One file after the other -/

section
variable (capacity : ℕ) (disk : Disk) (root : OsStr) (defaults : Defaults) (referenced : List (List OsStr))

/-- A file of the walk, the entry it became, and the notes made of it. -/
structure Visited where
  file : OsStr
  found : Option Entry
  notes : List String
deriving DecidableEq, Repr

/-- The files visited, up to one whose derivation breaks off. -/
def visits : List OsStr → List String → List Visited
  | [], _ => []
  | file :: files, taken =>
    let here := (one capacity disk root defaults referenced file taken).run
    match here.value with
    | none => []
    | some (found,taken) => ⟨file,found,here.reports⟩ :: visits files taken

variable {capacity disk root defaults referenced}

/-- Every file has its part of the entries that are found and of the notes. -/
theorem visit_eq {files : List OsStr} {taken : List String} {found : List Entry}
    (is : (visit capacity disk root defaults referenced files taken).run.value = some found) :
    (visits capacity disk root defaults referenced files taken).map Visited.file = files ∧
      found = (visits capacity disk root defaults referenced files taken).filterMap Visited.found ∧
      (visit capacity disk root defaults referenced files taken).run.reports =
        (visits capacity disk root defaults referenced files taken).flatMap Visited.notes := by
  induction files generalizing taken found with
  | nil =>
    cases is
    exact ⟨rfl,rfl,rfl⟩
  | cons file files ih =>
    rw [visit] at is ⊢
    rw [Reported.value_run_bind] at is
    rw [Reported.reports_run_bind]
    obtain ⟨⟨here,taken'⟩,here_is,is⟩ := Option.bind_eq_some_iff.mp is
    rw [Reported.value_run_bind] at is
    obtain ⟨rest,rest_is,is⟩ := Option.bind_eq_some_iff.mp is
    cases is
    obtain ⟨same,entries,notes⟩ := ih rest_is
    rw [visits]
    dsimp only
    rw [here_is]
    refine ⟨congrArg _ same,?_,?_⟩
    · rw [List.filterMap_cons]
      cases here with
      | none => exact entries
      | some entry => exact congrArg _ entries
    · rw [List.flatMap_cons,Option.elim_some,Reported.reports_run_bind,rest_is,notes,Option.elim_some]
      simp

end

/-! ## Names an identifier can be made of -/

/-- A file's name has a letter or a digit in the part that names the model. -/
def Nameable (name : String) : Prop := ∃ c ∈ stemOf name, c.isAlphanum = true

/-- Only what has neither letter nor digit comes to nothing. -/
theorem sanitised_isEmpty_iff (text : List Char) : (sanitised text).isEmpty = true ↔ ¬ ∃ c ∈ text, c.isAlphanum = true := by
  -- What is put together has a character other than a hyphen once a letter or digit was met.
  have met (out : List Char) : (∃ c ∈ text.foldl (fun out c =>
      if c.isAlphanum then out ++ [Text.asciiLower c] else if out.getLast? = some '-' then out else out ++ ['-']) out,
      c ≠ '-') ↔ (∃ c ∈ out, c ≠ '-') ∨ ∃ c ∈ text, c.isAlphanum = true := by
    induction text generalizing out with
    | nil => simp
    | cons c text ih =>
      rw [List.foldl_cons,ih]
      split_ifs with alphanumeric hyphened
      · refine iff_of_true (.inl ⟨Text.asciiLower c,by simp,asciiLower_ne_hyphen alphanumeric⟩) (.inr ⟨c,List.mem_cons_self,alphanumeric⟩)
      · simp [alphanumeric]
      · simp [alphanumeric]
  have all := met []
  simp only [List.not_mem_nil,false_and,exists_false,false_or] at all
  rw [← all,String.isEmpty_iff,sanitised,String.ofList_eq_empty_iff]
  generalize text.foldl _ [] = out
  rw [List.rdropWhile_eq_nil_iff]
  constructor
  · rintro hyphens ⟨c,inside,other⟩
    cases front : out.dropWhile fun c => decide (c = '-') with
    | nil => exact other (of_decide_eq_true (List.dropWhile_eq_nil_iff.mp front c inside))
    | cons first rest =>
      have kept := List.head?_dropWhile_not (fun c : Char => decide (c = '-')) out
      rw [front] at kept hyphens
      exact of_decide_eq_false kept (of_decide_eq_true (hyphens first List.mem_cons_self))
  · intro none c inside
    refine decide_eq_true ?_
    by_contra other
    exact none ⟨c,(List.dropWhile_suffix _).subset inside,other⟩

/-! ## What is said of a file that is skipped -/

/-- A note says of a file that it was skipped, and why. -/
def Skipped (root file : OsStr) (note : String) : Prop :=
  ∃ shown why, (shown = Path.display file ∨ relative root file = some shown) ∧ why ≠ "" ∧ note = s!"skipped '{shown}': {why}"

/-- A file became one entry, under its location, or a note says why it did not. -/
inductive Visited.Accounted (root : OsStr) (self : Visited) : Prop
  | Entry (entry : Entry) : self.found = some entry → relative root self.file = some entry.path → Accounted root self
  | Note (note : String) : self.found = none → note ∈ self.notes → Skipped root self.file note → Accounted root self

/-- A note that a name is taken says why. -/
theorem taken_note (file wanted instead : String) : ∃ why, why ≠ "" ∧
    s!"skipped '{file}': '{wanted}' is already taken, and so is '{instead}'" = s!"skipped '{file}': {why}" := by
  refine ⟨"'" ++ (wanted ++ ("' is already taken, and so is '" ++ (instead ++ "'"))),?_,?_⟩
  · intro same
    have letters := congrArg String.length same
    simp at letters
  · have split (rest : String) : "': '" ++ rest = "': " ++ ("'" ++ rest) := by
      rw [← String.append_assoc]
      rfl
    simp only [toString,String.append_assoc]
    rw [split]

theorem path_note (file : String) : ∃ why, why ≠ "" ∧
    s!"skipped '{file}': its path is not text this catalog can carry" = s!"skipped '{file}': {why}" := by
  refine ⟨"its path is not text this catalog can carry",by decide,?_⟩
  have split : "': its path is not text this catalog can carry" = "': " ++ "its path is not text this catalog can carry" := rfl
  simp only [toString,String.append_assoc]
  rw [split]

/-- A file gets no identifier without a word only where its name has nothing to
    make one of. -/
theorem identifier_reports (root : OsStr) {file : OsStr} {taken taken' : List String} {name : String}
    (text : (Path.fileName file).bind Path.toStr = some name) (is : (identifier file taken).value = (none,taken')) :
    ((sanitised (stemOf name)).isEmpty = true → (identifier file taken).reports = []) ∧
      ((sanitised (stemOf name)).isEmpty = false → ∃ note ∈ (identifier file taken).reports, Skipped root file note) := by
  unfold identifier at is ⊢
  simp only [text] at is ⊢
  constructor
  · intro blank
    rw [if_pos blank]
    rfl
  · intro worded
    rw [if_neg (ne_true_of_eq_false worded)] at is ⊢
    split_ifs at is ⊢ with fresh both
    · rw [Reported.reports_bind,Reported.reports_report]
      obtain ⟨why,some,note⟩ :=
        taken_note (Path.display file) (sanitised (stemOf name)) (qualified (parentOf file) (sanitised (stemOf name)))
      exact ⟨_,List.mem_append_left _ (List.mem_singleton.mpr rfl),Path.display file,why,.inl rfl,some,note⟩
    · cases is
    · cases is

section
variable {capacity : ℕ} {disk : Disk} {root : OsStr} {defaults : Defaults} {referenced : List (List OsStr)}

/-- Only a model file that is not there leaves an entry without an estimate. -/
theorem derive_error {entry : Entry} {reason : String} (is : derive capacity disk entry root = some (.error reason)) :
    reason = s!"no model file at '{Path.display (resolve root entry.path)}'" := by
  unfold derive at is
  dsimp only at is
  cases weighs : Estimate.weightsOf disk (resolve root entry.path)
      (Gguf.Metadata.read disk (resolve root entry.path)).toOption with
  | none =>
    rw [weighs] at is
    cases is
  | some result =>
    rw [weighs] at is
    cases result with
    | ok weights =>
      obtain ⟨first,_,is⟩ := Option.bind_eq_some_iff.mp is
      obtain ⟨second,_,is⟩ := Option.bind_eq_some_iff.mp is
      obtain ⟨third,_,is⟩ := Option.bind_eq_some_iff.mp is
      obtain ⟨sum,_,is⟩ := Option.bind_eq_some_iff.mp is
      cases is
    | error other =>
      cases is
      unfold Estimate.weightsOf at weighs
      cases size : disk.size (resolve root entry.path) with
      | none =>
        rw [size] at weighs
        cases weighs
        rfl
      | some size =>
        rw [size] at weighs
        obtain ⟨sum,_,same⟩ := Option.map_eq_some_iff.mp weighs
        cases same

/-- A file that becomes no entry for want of an estimate is said to be skipped. -/
theorem entry_reports {id location : String} {found : Option Entry}
    (is : (entry capacity disk root defaults id location).run.value = some found) :
    (∃ entry, found = some entry ∧ entry.path = location) ∨
      found = none ∧ ∃ note ∈ (entry capacity disk root defaults id location).run.reports,
        ∃ why, why ≠ "" ∧ note = s!"skipped '{location}': {why}" := by
  unfold entry at is ⊢
  dsimp only at is ⊢
  cases derives : derive capacity disk (drafted disk root defaults id location) root with
  | none =>
    rw [derives] at is
    cases is
  | some result =>
    rw [derives] at is
    cases result with
    | ok derived =>
      cases is
      exact .inl ⟨_,rfl,rfl⟩
    | error reason =>
      cases is
      refine .inr ⟨rfl,_,List.mem_cons_self,reason,?_,rfl⟩
      rw [derive_error derives]
      intro same
      have letters := congrArg String.length same
      simp [toString] at letters

/-- What becomes of one file that no entry names. -/
theorem one_accounted {file : OsStr} {taken taken' : List String} {found : Option Entry} {name : String}
    (text : (Path.fileName file).bind Path.toStr = some name) (unnamed : Path.components file ∉ referenced)
    (is : (one capacity disk root defaults referenced file taken).run.value = some (found,taken')) :
    Visited.Accounted root ⟨file,found,(one capacity disk root defaults referenced file taken).run.reports⟩ ↔
      ((relative root file).isSome → Nameable name) := by
  have blank_iff := sanitised_isEmpty_iff (stemOf name)
  unfold one at is ⊢
  rw [if_neg unnamed] at is ⊢
  cases located : relative root file with
  | none =>
    rw [located] at is
    cases is
    obtain ⟨why,some,note⟩ := path_note (Path.display file)
    exact iff_of_true (.Note _ rfl List.mem_cons_self ⟨_,why,.inl rfl,some,note⟩) (by simp)
  | some location =>
    rw [located] at is
    simp only [Reported.value_run_bind,Reported.reports_run_bind,Reported.value_run_lift,Reported.reports_run_lift,
      Option.bind_some,Option.elim_some] at is ⊢
    cases named : (identifier file taken).value with
    | mk id taken'' =>
      rw [named] at is
      cases id with
      | none =>
        cases is
        obtain ⟨silent,noted⟩ := identifier_reports root text named
        rcases Bool.eq_false_or_eq_true (sanitised (stemOf name)).isEmpty with blank | worded
        · refine iff_of_false ?_ fun all => (blank_iff.mp blank) (all rfl)
          rintro (⟨_,found,_⟩ | ⟨_,_,inside,_⟩)
          · cases found
          · simp [silent blank] at inside
        · obtain ⟨note,inside,skipped⟩ := noted worded
          refine iff_of_true (.Note note rfl ?_ skipped) fun _ => not_not.mp fun none => ?_
          · exact List.mem_append_left _ inside
          · rw [blank_iff.mpr none] at worded
            cases worded
      | some id =>
        have nameable : Nameable name := by
          by_contra none
          unfold identifier at named
          simp only [text,if_pos (blank_iff.mpr none)] at named
          cases named
        refine iff_of_true ?_ fun _ => nameable
        dsimp only at is ⊢
        rw [Reported.value_run_bind] at is
        rw [Reported.reports_run_bind]
        obtain ⟨outcome,outcome_is,is⟩ := Option.bind_eq_some_iff.mp is
        cases is
        rcases entry_reports outcome_is with ⟨entry,rfl,path⟩ | ⟨rfl,note,inside,why,some,note_is⟩
        · exact .Entry entry rfl (path ▸ located)
        · refine .Note note rfl ?_ ⟨location,why,.inr located,some,note_is⟩
          exact List.mem_append_right _ (List.mem_append_left _ inside)

/-! ## Every file of a list -/

/-- A file the walk hands on: its name is text, and a model's. -/
def Modelled (file : OsStr) : Prop := ∃ name, (Path.fileName file).bind Path.toStr = some name ∧ isModel name = true

theorem walk_modelled (disk : Disk) (depth : ℕ) (directory : OsStr) : ∀ file ∈ walk disk depth directory, Modelled file := by
  induction depth generalizing directory with
  | zero => simp [walk]
  | succ depth ih =>
    intro file inside
    unfold walk at inside
    cases listed : disk.readDir directory with
    | none => simp [listed] at inside
    | some names =>
      rw [listed] at inside
      obtain ⟨path,_,met⟩ := List.mem_flatMap.mp inside
      split_ifs at met with below model
      · exact ih path file met
      · rw [List.mem_singleton.mp met]
        exact (Option.any_eq_true ..).mp model
      · cases met

/-- The file has an entry of its own or a note that says why it has none, unless
    an entry of the catalog names it. -/
def AllAccounted (root : OsStr) (referenced : List (List OsStr)) (visited : List Visited) : Prop :=
  ∀ each ∈ visited, Path.components each.file ∉ referenced → each.Accounted root

/-- Each file that no entry names and that has a location is nameable. -/
def AllNameable (root : OsStr) (referenced : List (List OsStr)) (files : List OsStr) : Prop :=
  ∀ file ∈ files, Path.components file ∉ referenced → (relative root file).isSome →
    ∀ name, (Path.fileName file).bind Path.toStr = some name → Nameable name

theorem visits_accounted {files : List OsStr} (modelled : ∀ file ∈ files, Modelled file) {taken : List String}
    {found : List Entry} (is : (visit capacity disk root defaults referenced files taken).run.value = some found) :
    AllAccounted root referenced (visits capacity disk root defaults referenced files taken) ↔
      AllNameable root referenced files := by
  unfold AllAccounted AllNameable
  induction files generalizing taken found with
  | nil => simp [visits]
  | cons file files ih =>
    rw [visit,Reported.value_run_bind] at is
    obtain ⟨⟨here,taken'⟩,here_is,is⟩ := Option.bind_eq_some_iff.mp is
    rw [Reported.value_run_bind] at is
    obtain ⟨rest,rest_is,_⟩ := Option.bind_eq_some_iff.mp is
    obtain ⟨⟨name,text,_⟩,others⟩ := List.forall_mem_cons.mp modelled
    rw [visits,here_is,List.forall_mem_cons,List.forall_mem_cons,ih others rest_is]
    refine and_congr_left fun _ => forall_congr' fun unnamed => ?_
    rw [one_accounted text unnamed here_is]
    refine imp_congr_right fun _ => ?_
    constructor
    · intro nameable other other_is
      cases text.symm.trans other_is
      exact nameable
    · exact fun all => all name text

/-- What discovery finds and notes is what it does of each file, and every file
    is accounted for exactly where each has a name for an identifier. -/
theorem accounted_iff {files : List OsStr} (modelled : ∀ file ∈ files, Modelled file) {taken : List String}
    {found : List Entry} (is : (visit capacity disk root defaults referenced files taken).run.value = some found) :
    ((visits capacity disk root defaults referenced files taken).map Visited.file = files ∧
      found = (visits capacity disk root defaults referenced files taken).filterMap Visited.found ∧
      (visit capacity disk root defaults referenced files taken).run.reports =
        (visits capacity disk root defaults referenced files taken).flatMap Visited.notes) ∧
      (AllAccounted root referenced (visits capacity disk root defaults referenced files taken) ↔
        AllNameable root referenced files) :=
  ⟨visit_eq is,visits_accounted modelled is⟩

end

/-! ## A name in another script -/

/-- A root with one model in it. -/
def diskN (name : String) : Disk where
  node path :=
    if path = Gguf.textBytes "r" then some (.Directory (some [Gguf.textBytes name]))
    else if path = Gguf.textBytes ("r/" ++ name) then some (.File Estimate.zip none)
    else none

def filesN (name : String) : List OsStr := walk (diskN name) (MAX_DEPTH + 1) (Gguf.textBytes "r")

theorem plain_name_accounted : AllAccounted (Gguf.textBytes "r") []
    (visits 0 (diskN "m.gguf") (Gguf.textBytes "r") .none [] (filesN "m.gguf") RESERVED) := by
  have found : ((visit 0 (diskN "m.gguf") (Gguf.textBytes "r") .none [] (filesN "m.gguf") RESERVED).run.value).isSome := by
    decide +kernel
  obtain ⟨entries,is⟩ := Option.isSome_iff_exists.mp found
  refine (accounted_iff (walk_modelled _ _ _) is).2.mpr ?_
  have files : filesN "m.gguf" = [Gguf.textBytes "r/m.gguf"] := by decide +kernel
  intro file inside _ _ name text
  replace inside : file ∈ filesN "m.gguf" := inside
  rw [files] at inside
  rw [List.mem_singleton.mp inside] at text
  have named : (Path.fileName (Gguf.textBytes "r/m.gguf")).bind Path.toStr = some "m.gguf" := by decide +kernel
  cases named.symm.trans text
  exact ⟨'m',by decide +kernel,by decide⟩

theorem other_script_lost : ¬ AllAccounted (Gguf.textBytes "r") []
    (visits 0 (diskN "模型.gguf") (Gguf.textBytes "r") .none [] (filesN "模型.gguf") RESERVED) := by
  have visited : visits 0 (diskN "模型.gguf") (Gguf.textBytes "r") .none [] (filesN "模型.gguf") RESERVED =
      [⟨Gguf.textBytes "r/模型.gguf",none,[]⟩] := by decide +kernel
  intro all
  rw [visited] at all
  rcases all _ List.mem_cons_self List.not_mem_nil with ⟨_,found,_⟩ | ⟨_,_,inside,_⟩
  · cases found
  · cases inside

end Maestro.Discover
