import Maestro.Drafts
import Maestro.Estimate
import Mathlib.Data.List.Sort

/-!
# Every model file under the root that the catalog does not name

What a file's name says: whether it is a model on its own, and what the entry
it becomes is called. The root is walked to a fixed depth, in a stable order;
a file that becomes no entry is named in a note.
-/
namespace Maestro.Discover
open Read (Defaults DEFAULT_STARTUP_TIMEOUT_SECONDS filterMap_sublist)
open Estimate (derive resolve shardOf)

/-! ## What a name says -/

/-- Identifiers the proxy keeps for its own paths under `/models`. -/
def RESERVED : List String := ["load","unload","sse","props","models"]

/-- Whether a file's name ends as a model's does, in any case. -/
def isGguf (name : String) : Bool :=
  (Path.extension (Gguf.textBytes name)).any fun extension =>
    Text.toAsciiLowercase (Utf8.lossy extension) = "gguf".toList

/-- Whether a file name is a model on its own: no projector, no draft, and no
    shard but the first. -/
def isModel (name : String) : Bool :=
  let lower := Text.toAsciiLowercase name.toList
  if !isGguf name || Text.contains lower "mmproj".toList then false
  else if (lower.splitOnP fun c => !c.isAlphanum).any fun segment => "mtp".toList.isSuffixOf segment then false
  else (shardOf name.toList).all fun shard => shard.index = 1

/-- Lowercase letters and digits, with every other run collapsed to a hyphen. -/
def sanitised (text : List Char) : String :=
  let out := text.foldl (fun out c =>
    if c.isAlphanum then out ++ [Text.asciiLower c] else if out.getLast? = some '-' then out else out ++ ['-']) []
  String.ofList ((out.dropWhile (· = '-')).rdropWhile (· = '-'))

example : sanitised "Qwen3.8-27B-UD-Q6_K".toList = "qwen3-8-27b-ud-q6-k" ∧ sanitised "--Odd__Name--".toList = "odd-name" ∧
    sanitised "...".toList = "" := by decide

/-- The part of a file's name that names the model. -/
def stemOf (name : String) : List Char :=
  match shardOf name.toList with
  | some shard => shard.stem
  | none => match Text.rsplitOnce ['.'] name.toList with
    | some (stem,_) => stem
    | none => name.toList

/-- The name of the directory a file is in, as part of an identifier. -/
def parentOf (file : OsStr) : String :=
  ((((Path.parent file).bind Path.fileName).bind Path.toStr).map fun name => sanitised name.toList).getD ""

/-- An identifier with the parent directory's name in front. -/
def qualified (parent wanted : String) : String := parent ++ "-" ++ wanted

/-- The identifier a file gets, told apart from any already taken, and those
    taken from then on. -/
def identifier (file : OsStr) (taken : List String) : Reported String (Option String × List String) :=
  match (Path.fileName file).bind Path.toStr with
  | none => return (none,taken)
  | some name =>
    let wanted := sanitised (stemOf name)
    let instead := qualified (parentOf file) wanted
    if wanted.isEmpty then return (none,taken)
    else if wanted ∉ taken then return (some wanted,wanted :: taken)
    else if (parentOf file).isEmpty ∨ instead ∈ taken then do
      .report s!"skipped '{Path.display file}': '{wanted}' is already taken, and so is '{instead}'"
      return (none,taken)
    else do
      .report s!"discovered '{Path.display file}' as '{instead}', because '{wanted}' is already taken"
      return (some instead,instead :: taken)

/-! ## The walk -/

/-- How deep the walk goes. -/
def MAX_DEPTH : ℕ := 16

/-- Every model file below a directory, in a stable order; `depth` is how much
    deeper the walk may go. -/
def walk (disk : Disk) : ℕ → OsStr → List OsStr
  | 0, _ => []
  | depth + 1, directory =>
    match disk.readDir directory with
    | none => []
    | some names =>
      let paths := (names.map (Path.join directory)).insertionSort fun a b => Path.le a b
      paths.flatMap fun path =>
        if disk.isDir path then walk disk depth path
        else if ((Path.fileName path).bind Path.toStr).any isModel then [path]
        else []

/-- The location as a catalog would write it. -/
def relative (root file : OsStr) : Option String :=
  ((Path.stripPrefix root file).bind fun parts => parts.mapM Path.toStr).bind fun parts =>
    (Fields.RelativePath.new ("/".intercalate parts)).toOption

/-! ## The entries -/

/-- The context of an entry when neither the defaults table nor the file says. -/
def FALLBACK_CONTEXT : ℕ := 4096

section
variable (capacity : ℕ) (disk : Disk) (root : OsStr) (defaults : Defaults)

/-- The context a model was trained for, where its file says one of 32 bits
    that is not zero. -/
def trainedFor (location : String) : Option ℕ :=
  (((Gguf.Metadata.read disk (resolve root location)).toOption.bind fun metadata =>
    metadata.ofModel "context_length").filter fun context => context < 2 ^ 32).filter fun context => 0 < context

/-- The entry a file becomes, but for its estimate. -/
def drafted (id location : String) : Entry :=
  let trainedFor := trainedFor disk root location
  { id := id
    path := location
    draftPath := none
    projectorPath := none
    contextSize := min ((defaults.contextSize.or trainedFor).getD FALLBACK_CONTEXT) (trainedFor.getD (2 ^ 32 - 1))
    residency := .OnDemand
    memoryEstimateMib := 0
    reasoningFormat := defaults.reasoningFormat
    reasoningEffort := defaults.reasoningEffort
    startupTimeoutSeconds := defaults.startupTimeoutSeconds.getD DEFAULT_STARTUP_TIMEOUT_SECONDS
    runtime := none
    flags := defaults.flags }

/-- What the note of an estimate says about its basis. -/
def basisNote : Estimate.Basis → String
  | .Metadata => ""
  | .Size => ", from file size alone"

/-- The entry one file becomes, or a note why it becomes none. -/
def entry (id location : String) : OptionT (Reported String) (Option Entry) :=
  let entry := drafted disk root defaults id location
  match derive capacity disk entry root with
  | none => failure
  | some (.ok derived) => do
    let basis := basisNote derived.basis
    Reported.report (s!"discovered '{entry.id}' at {entry.path}: {derived.mib} MiB estimated at " ++
      s!"{entry.contextSize} tokens of context{basis}")
    return some { entry with memoryEstimateMib := derived.mib }
  | some (.error reason) => do
    Reported.report s!"skipped '{entry.path}': {reason}"
    return none

/-- What the visit makes of one file, and the identifiers taken from then on. -/
def one (referenced : List (List OsStr)) (file : OsStr) (taken : List String) :
    OptionT (Reported String) (Option Entry × List String) :=
  if Path.components file ∈ referenced then return (none,taken)
  else match relative root file with
    | none => do
      Reported.report s!"skipped '{Path.display file}': its path is not text this catalog can carry"
      return (none,taken)
    | some location => do
      match ← identifier file taken with
      | (none,taken) => return (none,taken)
      | (some id,taken) => return (← entry capacity disk root defaults id location,taken)

/-- The files of the walk, one after the other. -/
def visit (referenced : List (List OsStr)) : List OsStr → List String → OptionT (Reported String) (List Entry)
  | [], _ => return []
  | file :: files, taken => do
    let (found,taken) ← one capacity disk root defaults referenced file taken
    return found.toList ++ (← visit referenced files taken)

/-- The files the entries name, as the parts of their paths. -/
def referenced (entries : List Entry) : List (List OsStr) :=
  entries.flatMap fun entry => (entry.path :: (entry.draftPath.toList ++ entry.projectorPath.toList)).map fun location =>
    Path.components (resolve root location)

/-- Every model file under the root that the entries do not name, as entries. -/
def under (entries : List Entry) : OptionT (Reported String) (List Entry) :=
  visit capacity disk root defaults (referenced root entries) (walk disk (MAX_DEPTH + 1) root)
    (entries.map Entry.id ++ RESERVED)

/-! ## The files that become entries -/

/-- What becomes of an entry without an estimate: nothing where none can be
    derived. -/
def estimated (entry : Entry) : Option (Option Entry) :=
  (derive capacity disk entry root).map fun
    | .ok derived => some { entry with memoryEstimateMib := derived.mib }
    | .error _ => none

/-- The files that get an identifier, as entries without an estimate. -/
def candidates (referenced : List (List OsStr)) : List OsStr → List String → List Entry
  | [], _ => []
  | file :: files, taken =>
    if Path.components file ∈ referenced then candidates referenced files taken
    else match relative root file with
      | none => candidates referenced files taken
      | some location =>
        match (identifier file taken).value with
        | (none,taken) => candidates referenced files taken
        | (some id,taken) => drafted disk root defaults id location :: candidates referenced files taken

theorem value_entry (id location : String) : (entry capacity disk root defaults id location).run.value =
    estimated capacity disk root (drafted disk root defaults id location) := by
  unfold entry estimated
  dsimp only
  cases derive capacity disk (drafted disk root defaults id location) root with
  | none => rfl
  | some result => cases result <;> rfl

/-- The visit finds what becomes of the candidates, where it finds anything. -/
theorem value_visit (referenced : List (List OsStr)) (files : List OsStr) (taken : List String) :
    (visit capacity disk root defaults referenced files taken).run.value =
      ((candidates disk root defaults referenced files taken).mapM (estimated capacity disk root)).map List.reduceOption := by
  induction files generalizing taken with
  | nil => rfl
  | cons file files ih =>
    unfold visit one candidates
    by_cases named : Path.components file ∈ referenced
    · simp [if_pos named,ih]
    simp only [if_neg named]
    cases relative root file with
    | none => simp [ih]
    | some location =>
      dsimp only
      cases is : (identifier file taken).value with
      | mk id taken' =>
        cases id with
        | none => simp [ih,is]
        | some id =>
          simp only [Reported.value_run_bind,Reported.value_run_lift,Reported.value_run_pure,is,Option.bind_some,value_entry,
            Option.bind_assoc]
          rw [List.mapM_cons,ih]
          cases estimated capacity disk root (drafted disk root defaults id location) with
          | none => rfl
          | some found =>
            cases (candidates disk root defaults referenced files taken').mapM (estimated capacity disk root) with
            | none => rfl
            | some rest => cases found <;> rfl

end

/-! ## The identifiers -/

/-- The characters of a discovered identifier. -/
def nameChar (c : Char) : Bool := c = '-' || c.isLower || c.isDigit

theorem nameChar_lower {c : Char} (plain : c.isAlphanum = true) : nameChar (Text.asciiLower c) = true := by
  unfold Text.asciiLower
  split_ifs with upper
  · have lowered : ∀ n < 91, 65 ≤ n → nameChar (Char.ofNat (n + 32)) = true := by decide
    have below : c.toNat ≤ 90 := upper.2
    exact lowered c.toNat (by omega) upper.1
  · unfold nameChar
    rcases Bool.or_eq_true_iff.mp plain with alpha | digit
    · rcases Bool.or_eq_true_iff.mp alpha with is | lower
      · exact absurd (of_decide_eq_true is) upper
      · rw [lower,Bool.or_true,Bool.true_or]
    · rw [digit,Bool.or_true]

theorem sanitised_plain (text : List Char) : ∀ c ∈ (sanitised text).toList, nameChar c = true := by
  have kept (out : List Char) (plain : ∀ c ∈ out, nameChar c = true) : ∀ c ∈ text.foldl (fun out c =>
      if c.isAlphanum then out ++ [Text.asciiLower c] else if out.getLast? = some '-' then out else out ++ ['-']) out,
      nameChar c = true := by
    induction text generalizing out with
    | nil => exact plain
    | cons c text ih =>
      rw [List.foldl_cons]
      apply ih
      split_ifs with alphanumeric hyphened
      · intro d inside
        rcases List.mem_append.mp inside with before | last
        · exact plain d before
        · rw [List.mem_singleton.mp last]
          exact nameChar_lower alphanumeric
      · exact plain
      · intro d inside
        rcases List.mem_append.mp inside with before | last
        · exact plain d before
        · rw [List.mem_singleton.mp last]
          decide
  intro c inside
  rw [sanitised,String.toList_ofList] at inside
  exact kept [] (by simp) c ((List.dropWhile_suffix _).subset ((List.rdropWhile_prefix _ _).subset inside))

/-- An identifier made of a file's name. -/
structure Named (id : String) : Prop where
  some : id ≠ ""
  plain : ∀ c ∈ id.toList, nameChar c = true

theorem sanitised_named {text : List Char} (there : ¬ (sanitised text).isEmpty = true) : Named (sanitised text) :=
  ⟨fun same => there (String.isEmpty_iff.mpr same),sanitised_plain text⟩

theorem parentOf_plain (file : OsStr) : ∀ c ∈ (parentOf file).toList, nameChar c = true := by
  unfold parentOf
  cases ((Path.parent file).bind Path.fileName).bind Path.toStr with
  | none => simp
  | some name => exact sanitised_plain name.toList

theorem qualified_named {parent wanted : String} (plain : ∀ c ∈ parent.toList, nameChar c = true) (named : Named wanted) :
    Named (qualified parent wanted) := by
  constructor
  · intro same
    have lengths := congrArg String.length same
    simp [qualified] at lengths
  · intro c inside
    simp only [qualified,String.toList_append,List.mem_append] at inside
    rcases inside with (before | hyphen) | behind
    · exact plain c before
    · have hyphen : c = '-' := by simpa using hyphen
      rw [hyphen]
      decide
    · exact named.plain c behind

/-- An identifier a file gets was not taken, and is from then on. -/
theorem identifier_some {file : OsStr} {taken taken' : List String} {id : String}
    (is : (identifier file taken).value = (some id,taken')) : id ∉ taken ∧ taken' = id :: taken ∧ Named id := by
  unfold identifier at is
  cases text : (Path.fileName file).bind Path.toStr with
  | none => simp [text] at is
  | some name =>
    simp only [text] at is
    by_cases blank : (sanitised (stemOf name)).isEmpty = true
    · rw [if_pos blank] at is
      cases is
    rw [if_neg blank] at is
    by_cases fresh : sanitised (stemOf name) ∉ taken
    · rw [if_pos fresh] at is
      cases is
      exact ⟨fresh,rfl,sanitised_named blank⟩
    rw [if_neg fresh] at is
    split_ifs at is with unnamed
    · cases is
    · cases is
      exact ⟨(not_or.mp unnamed).2,rfl,qualified_named (parentOf_plain file) (sanitised_named blank)⟩

theorem identifier_none {file : OsStr} {taken taken' : List String}
    (is : (identifier file taken).value = (none,taken')) : taken' = taken := by
  unfold identifier at is
  cases text : (Path.fileName file).bind Path.toStr with
  | none =>
    simp [text] at is
    exact is.symm
  | some name =>
    simp only [text] at is
    split_ifs at is
    all_goals
      cases is
    all_goals rfl

/-! ## The candidates -/

section Candidates
variable (disk : Disk) (root : OsStr) (defaults : Defaults) (referenced : List (List OsStr))

/-- Every candidate is what the file at a location inside the root becomes. -/
theorem candidates_drafted {files : List OsStr} {taken : List String} {candidate : Entry}
    (inside : candidate ∈ candidates disk root defaults referenced files taken) :
    ∃ id location, candidate = drafted disk root defaults id location ∧ Fields.Relative location := by
  induction files generalizing taken with
  | nil => simp [candidates] at inside
  | cons file files ih =>
    unfold candidates at inside
    split_ifs at inside with named
    · exact ih inside
    cases located : relative root file with
    | none =>
      rw [located] at inside
      exact ih inside
    | some location =>
      rw [located] at inside
      dsimp only at inside
      split at inside
      · exact ih inside
      · rcases List.mem_cons.mp inside with rfl | later
        · refine ⟨_,location,rfl,?_⟩
          obtain ⟨parts,_,accepted⟩ := Option.bind_eq_some_iff.mp located
          cases is : Fields.RelativePath.new ("/".intercalate parts) with
          | error complaint =>
            rw [is] at accepted
            cases accepted
          | ok found =>
            rw [is] at accepted
            cases accepted
            obtain ⟨rfl,relative⟩ := Fields.new_eq_ok_iff.mp is
            exact relative
        · exact ih later

/-- The candidates have identifiers of their own, none of them taken before. -/
theorem candidates_ids (files : List OsStr) (taken : List String) :
    ((candidates disk root defaults referenced files taken).map Entry.id).Nodup ∧
      ∀ candidate ∈ candidates disk root defaults referenced files taken, candidate.id ∉ taken ∧ Named candidate.id := by
  induction files generalizing taken with
  | nil => simp [candidates]
  | cons file files ih =>
    unfold candidates
    split_ifs with named
    · exact ih taken
    cases relative root file with
    | none => exact ih taken
    | some location =>
      dsimp only
      cases is : (identifier file taken).value with
      | mk id taken' =>
        cases id with
        | none =>
          rw [identifier_none is]
          exact ih taken
        | some id =>
          obtain ⟨fresh,rfl,named⟩ := identifier_some is
          obtain ⟨distinct,others⟩ := ih (id :: taken)
          refine ⟨?_,?_⟩
          · rw [List.map_cons]
            refine List.nodup_cons.mpr ⟨?_,distinct⟩
            intro again
            obtain ⟨candidate,inside,same⟩ := List.mem_map.mp again
            refine (others candidate inside).1 ?_
            rw [same]
            exact List.mem_cons_self
          · intro candidate inside
            rcases List.mem_cons.mp inside with rfl | later
            · exact ⟨fresh,named⟩
            · obtain ⟨free,plain⟩ := others candidate later
              exact ⟨fun before => free (List.mem_cons_of_mem _ before),plain⟩

/-- The candidates are the same for entries of the same names and locations. -/
theorem referenced_congr {entries others : List Entry}
    (same : entries.map (fun entry => (entry.path,entry.draftPath,entry.projectorPath)) =
      others.map fun entry => (entry.path,entry.draftPath,entry.projectorPath)) :
    Discover.referenced root entries = Discover.referenced root others := by
  have through (entries : List Entry) : Discover.referenced root entries =
      (entries.map fun entry => (entry.path,entry.draftPath,entry.projectorPath)).flatMap fun locations =>
        (locations.1 :: (locations.2.1.toList ++ locations.2.2.toList)).map fun location =>
          Path.components (resolve root location) := by
    rw [Discover.referenced,List.flatMap_map]
  rw [through,through,same]

end Candidates

/-! ## What is found -/

/-- A traversal of optional results goes through where none breaks off. -/
theorem mapM_reduceOption {α β : Type} (f : α → Option (Option β)) (xs : List α) :
    (xs.mapM f).map List.reduceOption =
      if ∀ x ∈ xs, (f x).isSome then some (xs.filterMap fun x => (f x).join) else none := by
  induction xs with
  | nil => rfl
  | cons x xs ih =>
    rw [List.mapM_cons]
    cases here : f x with
    | none =>
      have broken : ¬ ∀ y ∈ x :: xs, (f y).isSome := by
        intro all
        have there := all x List.mem_cons_self
        rw [here] at there
        cases there
      rw [if_neg broken]
      rfl
    | some found =>
      have behind : (some found >>= fun found => xs.mapM f >>= fun rest => pure (found :: rest)).map List.reduceOption =
          ((xs.mapM f).map List.reduceOption).map (found.toList ++ ·) := by
        cases xs.mapM f <;> cases found <;> rfl
      have all_iff : (∀ y ∈ x :: xs, (f y).isSome) ↔ ∀ y ∈ xs, (f y).isSome := by simp [here]
      rw [behind,ih]
      simp only [all_iff]
      split_ifs
      · cases found <;> simp [here]
      · rfl

section Under
variable {capacity : ℕ} {disk : Disk} {root : OsStr} {defaults : Defaults} {entries : List Entry}

/-- The files of the walk that become entries beside the given ones. -/
def candidatesOf (disk : Disk) (root : OsStr) (defaults : Defaults) (entries : List Entry) : List Entry :=
  candidates disk root defaults (referenced root entries) (walk disk (MAX_DEPTH + 1) root) (entries.map Entry.id ++ RESERVED)

/-- Discovery breaks off exactly where a derivation does. -/
theorem value_under : (under capacity disk root defaults entries).run.value =
    if ∀ candidate ∈ candidatesOf disk root defaults entries, (derive capacity disk candidate root).isSome
    then some ((candidatesOf disk root defaults entries).filterMap fun candidate =>
      (estimated capacity disk root candidate).join) else none := by
  have derived (candidate : Entry) : (estimated capacity disk root candidate).isSome =
      (derive capacity disk candidate root).isSome := Option.isSome_map
  rw [under,value_visit,mapM_reduceOption]
  simp only [derived]
  rfl

variable {found : List Entry} (is : (under capacity disk root defaults entries).run.value = some found)
include is

theorem under_found : found = (candidatesOf disk root defaults entries).filterMap fun candidate =>
    (estimated capacity disk root candidate).join := by
  rw [value_under] at is
  split_ifs at is
  exact (Option.some.inj is).symm

omit is in
/-- What is left of an entry is the entry with the estimate derived for it. -/
theorem estimated_join {candidate entry : Entry} : (estimated capacity disk root candidate).join = some entry ↔
    ∃ derived, derive capacity disk candidate root = some (.ok derived) ∧
      entry = { candidate with memoryEstimateMib := derived.mib } := by
  unfold estimated
  cases derive capacity disk candidate root with
  | none => simp
  | some result => cases result <;> simp [eq_comm]

/-- Every entry found is a candidate with an estimate. -/
theorem under_mem {entry : Entry} (inside : entry ∈ found) : ∃ candidate derived,
    candidate ∈ candidatesOf disk root defaults entries ∧ derive capacity disk candidate root = some (.ok derived) ∧
      entry = { candidate with memoryEstimateMib := derived.mib } := by
  rw [under_found is] at inside
  obtain ⟨candidate,listed,settles⟩ := List.mem_filterMap.mp inside
  obtain ⟨derived,derives,same⟩ := estimated_join.mp settles
  exact ⟨candidate,derived,listed,derives,same⟩

/-- The entries found have identifiers of their own. -/
theorem under_distinct : (found.map Entry.id).Nodup := by
  rw [under_found is]
  refine (filterMap_sublist ?_ _).nodup (candidates_ids disk root defaults _ _ _).1
  intro candidate entry settles
  obtain ⟨derived,_,rfl⟩ := estimated_join.mp settles
  rfl

/-- None of them is one the catalog names, or the proxy keeps. -/
theorem under_fresh {entry : Entry} (inside : entry ∈ found) :
    entry.id ∉ entries.map Entry.id ∧ entry.id ∉ RESERVED ∧ Named entry.id := by
  obtain ⟨candidate,derived,listed,_,rfl⟩ := under_mem is inside
  obtain ⟨free,named⟩ := (candidates_ids disk root defaults _ _ _).2 candidate listed
  obtain ⟨declared,kept⟩ := not_or.mp fun either => free (List.mem_append.mpr either)
  exact ⟨declared,kept,named⟩

end Under

/-! ## What an entry takes from its file -/

section Drafted
variable {disk : Disk} {root : OsStr} {defaults : Defaults} {id location : String}

theorem trainedFor_figure {context : ℕ} (is : trainedFor disk root location = some context) : Read.Figure context := by
  obtain ⟨is,positive⟩ := Option.filter_eq_some_iff.mp is
  obtain ⟨_,small⟩ := Option.filter_eq_some_iff.mp is
  exact ⟨of_decide_eq_true positive,of_decide_eq_true small⟩

/-- The context is the defaults' or the file's, and no longer than the file's. -/
theorem drafted_context (sound : defaults.Sound) : Read.Figure (drafted disk root defaults id location).contextSize := by
  show Read.Figure (min ((defaults.contextSize.or (trainedFor disk root location)).getD FALLBACK_CONTEXT)
    ((trainedFor disk root location).getD (2 ^ 32 - 1)))
  have chosen : Read.Figure ((defaults.contextSize.or (trainedFor disk root location)).getD FALLBACK_CONTEXT) := by
    cases told : defaults.contextSize.or (trainedFor disk root location) with
    | none => constructor <;> decide
    | some context =>
      rcases Option.or_eq_some_iff.mp told with own | ⟨_,trained⟩
      · exact sound.context context own
      · exact trainedFor_figure trained
  have bounded : 0 < (trainedFor disk root location).getD (2 ^ 32 - 1) := by
    cases told : trainedFor disk root location with
    | none => decide
    | some context => exact (trainedFor_figure told).1
  exact ⟨lt_min chosen.1 bounded,lt_of_le_of_lt (min_le_left _ _) chosen.2⟩

/-- A file that says what it was trained for bounds the context. -/
theorem drafted_trained (id : String) {metadata : Gguf.Metadata} {context : ℕ}
    (reads : Gguf.Metadata.read disk (resolve root location) = .ok metadata)
    (told : metadata.ofModel "context_length" = some context) (positive : 0 < context) :
    (drafted disk root defaults id location).contextSize ≤ context := by
  show min ((defaults.contextSize.or (trainedFor disk root location)).getD FALLBACK_CONTEXT)
    ((trainedFor disk root location).getD (2 ^ 32 - 1)) ≤ context
  refine le_trans (min_le_right _ _) ?_
  by_cases small : context < 2 ^ 32
  · have trained : trainedFor disk root location = some context := by
      unfold trainedFor
      rw [reads]
      simp only [Except.toOption,Option.bind_some,told]
      rw [Option.filter_some,if_pos (decide_eq_true small),Option.filter_some,if_pos (decide_eq_true positive)]
    rw [trained]
    exact le_rfl
  · have figure : (trainedFor disk root location).getD (2 ^ 32 - 1) < 2 ^ 32 := by
      cases trained : trainedFor disk root location with
      | none => decide
      | some other => exact (trainedFor_figure trained).2
    omega

theorem drafted_sound (sound : defaults.Sound) (relative : Fields.Relative location) :
    Read.Sound (drafted disk root defaults id location) := by
  refine ⟨relative,?_,?_,drafted_context sound,?_⟩
  · intro other told
    cases told
  · intro other told
    cases told
  · show Read.Figure (defaults.startupTimeoutSeconds.getD DEFAULT_STARTUP_TIMEOUT_SECONDS)
    cases told : defaults.startupTimeoutSeconds with
    | none => exact Read.startup_sound
    | some seconds => exact sound.startup seconds told

end Drafted
end Maestro.Discover
