import Maestro.Keyed
import Maestro.Monotone

/-!
# The command line one catalog entry becomes

The line is a list of settings, each a flag with its value or a flag alone. A
server that takes the last of several settings of one flag takes the estimator's
figures exactly where no setting of the flags table overrides the context, and
no negation sets aside what the estimator reads.
-/
namespace Maestro.Invocation
open Estimate (flag resolve sixteenths width)
open Gguf (textBytes)

/-! ## The line -/

/-- Every child binds loopback. -/
def HOST : String := "127.0.0.1"

/-- The five short forms, and the plain spelling for everything else. -/
def longForm (key : String) : String :=
  "--" ++ match key with
    | "c" => "ctx-size"
    | "ctk" => "cache-type-k"
    | "ctv" => "cache-type-v"
    | "fa" => "flash-attn"
    | "np" => "parallel"
    | other => other

/-- A value as it is compared: trimmed, and in lower case. -/
def folded (value : String) : String := String.ofList (Text.toAsciiLowercase (Text.trim value.toList))

def push (flag : String) (value : OsStr) : List OsStr := [textBytes flag,value]

/-- One setting from the flags table; negation is spelled from the key as
    written. -/
def option (key value : String) : List OsStr :=
  if folded value = "true" then [textBytes (longForm key)]
  else if folded value = "false" then [textBytes ("--no-" ++ key)]
  else [textBytes (longForm key),textBytes value]

section
variable (entry : Entry) (root : OsStr) (port : ℕ)

/-- The command line for one entry, without the binary that runs it. -/
def of : List OsStr :=
  push "--model" (resolve root entry.path) ++
    (entry.draftPath.elim [] fun draft => push "--model-draft" (resolve root draft)) ++
    (entry.projectorPath.elim [] fun projector => push "--mmproj" (resolve root projector)) ++
    push "--ctx-size" (textBytes (toString entry.contextSize)) ++
    (entry.reasoningFormat.elim [] fun format => push "--reasoning-format" (textBytes format)) ++
    (entry.reasoningEffort.elim [] fun effort => push "--reasoning-effort" (textBytes effort)) ++
    (entry.flags.flatMap fun (key,value) => option key value) ++
    push "--alias" (textBytes entry.id) ++ push "--host" (textBytes HOST) ++ push "--port" (textBytes (toString port))

end

/-! ## Its settings -/

/-- A flag of the line, with the value behind it where it has one. -/
structure Setting where
  flag : String
  value : Option OsStr
deriving DecidableEq, Repr

/-- The words of a setting. -/
def Setting.words (self : Setting) : List OsStr := textBytes self.flag :: self.value.toList

/-- The text of its value. -/
def Setting.text (self : Setting) : Option String := self.value.bind Path.toStr

/-- What a pair of the flags table sets. -/
def settingOf (key value : String) : Setting :=
  if folded value = "true" then ⟨longForm key,none⟩
  else if folded value = "false" then ⟨"--no-" ++ key,none⟩
  else ⟨longForm key,some (textBytes value)⟩

section
variable (entry : Entry) (root : OsStr) (port : ℕ)

/-- The settings in front of the flags table. -/
def fixed : List Setting :=
  [⟨"--model",some (resolve root entry.path)⟩] ++
    (entry.draftPath.map fun draft => ⟨"--model-draft",some (resolve root draft)⟩).toList ++
    (entry.projectorPath.map fun projector => ⟨"--mmproj",some (resolve root projector)⟩).toList ++
    [⟨"--ctx-size",some (textBytes (toString entry.contextSize))⟩] ++
    (entry.reasoningFormat.map fun format => ⟨"--reasoning-format",some (textBytes format)⟩).toList ++
    (entry.reasoningEffort.map fun effort => ⟨"--reasoning-effort",some (textBytes effort)⟩).toList

/-- The settings behind it. -/
def named : List Setting :=
  [⟨"--alias",some (textBytes entry.id)⟩,⟨"--host",some (textBytes HOST)⟩,⟨"--port",some (textBytes (toString port))⟩]

/-- All settings, in the order of the line. -/
def settings : List Setting := fixed entry root ++ entry.flags.map (fun (key,value) => settingOf key value) ++ named entry port

theorem words_settingOf (key value : String) : (settingOf key value).words = option key value := by
  unfold settingOf option
  split_ifs <;> rfl

/-- The line is its settings, word by word. -/
theorem of_eq : of entry root port = (settings entry root port).flatMap Setting.words := by
  have table : entry.flags.flatMap (fun pair => option pair.1 pair.2) =
      (entry.flags.map fun pair => settingOf pair.1 pair.2).flatMap Setting.words := by
    rw [List.flatMap_map]
    simp only [words_settingOf]
  have optional (flag : String) (value : Option OsStr) : (value.elim [] fun value => push flag value) =
      (value.map fun value => (⟨flag,some value⟩ : Setting)).toList.flatMap Setting.words := by
    cases value <;> rfl
  unfold of settings fixed named
  rw [table]
  simp only [List.flatMap_append]
  cases entry.draftPath <;> cases entry.projectorPath <;> cases entry.reasoningFormat <;> cases entry.reasoningEffort <;>
    simp [push,Setting.words]

end

/-! ## The last setting of a flag -/

/-- The setting of a flag that is taken, of several the last. -/
def last (flag : String) (settings : List Setting) : Option Setting := (settings.filter fun setting => setting.flag = flag).getLast?

theorem last_append (flag : String) (before behind : List Setting) :
    last flag (before ++ behind) = (last flag behind).or (last flag before) := by
  rw [last,List.filter_append,List.getLast?_append]
  rfl

theorem last_other {flag : String} {settings : List Setting} (others : ∀ setting ∈ settings, setting.flag ≠ flag) :
    last flag settings = none := by
  rw [last,List.filter_eq_nil_iff.mpr fun setting inside => by simpa using others setting inside]
  rfl

/-- The value under a key, but for one that negates it. -/
def given (flags : List (String × String)) (key : String) : Option String :=
  (flags.lookup key).filter fun value => folded value ≠ "false"

/-- A flag of the line, and the two spellings of it in a flags table, in the
    order of the table. -/
structure Spelled (flag low high : String) : Prop where
  below : low < high
  spells : ∀ key, longForm key = flag ↔ key = low ∨ key = high
  unnegated : ∀ key, "--no-" ++ key ≠ flag

section
variable {flag low high : String} (spelled : Spelled flag low high)
include spelled

theorem Spelled.setting_iff (key value : String) :
    (settingOf key value).flag = flag ↔ (key = low ∨ key = high) ∧ folded value ≠ "false" := by
  unfold settingOf
  split_ifs with bare negated
  · simp [spelled.spells,bare]
  · simp [spelled.unnegated,negated]
  · simp [spelled.spells,negated]

/-- The later spelling of a flag is the last on the line, unless it is negated
    or absent. -/
theorem Spelled.last_eq {flags : List (String × String)} (ascending : Keyed.Ascending flags) :
    last flag (flags.map fun pair => settingOf pair.1 pair.2) =
      ((given flags high).map (settingOf high)).or ((given flags low).map (settingOf low)) := by
  induction flags with
  | nil => rfl
  | cons pair flags ih =>
    obtain ⟨key,value⟩ := pair
    obtain ⟨above,rest⟩ := List.pairwise_cons.mp ascending
    have behind (other : String) (before : other ≤ key) : given flags other = none := by
      have absent : flags.lookup other = none := by
        cases is : flags.lookup other with
        | none => rfl
        | some found =>
          have later := above other (List.mem_map.mpr ⟨_,Keyed.mem_of_lookup is,rfl⟩)
          exact absurd later (not_lt.mpr before)
      rw [given,absent]
      rfl
    have front : given ((key,value) :: flags) = fun other =>
        if other = key then (some value).filter fun value => folded value ≠ "false" else given flags other := by
      funext other
      rw [given,Keyed.lookup_cons]
      split_ifs <;> rfl
    have one : last flag [settingOf key value] =
        if (key = low ∨ key = high) ∧ folded value ≠ "false" then some (settingOf key value) else none := by
      by_cases named : (settingOf key value).flag = flag
      · rw [if_pos ((spelled.setting_iff key value).mp named)]
        simp [last,named]
      · rw [if_neg fun both => named ((spelled.setting_iff key value).mpr both)]
        simp [last,named]
    rw [List.map_cons,← List.singleton_append,last_append,ih rest,one,front]
    dsimp only
    have apart : low ≠ high := ne_of_lt spelled.below
    by_cases at_high : key = high
    · subst at_high
      rw [behind key (le_refl _),behind low (le_of_lt spelled.below),if_pos rfl,if_neg apart]
      by_cases negated : folded value = "false" <;> simp [negated]
    by_cases at_low : key = low
    · subst at_low
      rw [behind key (le_refl _),if_neg (Ne.symm apart),if_pos rfl]
      by_cases negated : folded value = "false" <;> cases given flags high <;> simp [negated]
    · rw [if_neg (Ne.symm at_high),if_neg (Ne.symm at_low),if_neg fun both => both.1.elim at_low at_high]
      cases given flags high <;> cases given flags low <;> rfl

end

/-! ## The three flags the estimator reads -/

theorem longForm_eq_iff {key long : String} : longForm key = "--" ++ long ↔
    (match key with
      | "c" => "ctx-size"
      | "ctk" => "cache-type-k"
      | "ctv" => "cache-type-v"
      | "fa" => "flash-attn"
      | "np" => "parallel"
      | other => other) = long := by
  unfold longForm
  rw [String.ext_iff,String.toList_append,String.toList_append,List.append_cancel_left_eq,String.ext_iff]

/-- A flag of the line is none that negates. -/
theorem not_negated {flag : String} (third : flag.toList[2]? ≠ some 'n') (key : String) : "--no-" ++ key ≠ flag := by
  rintro rfl
  rw [String.toList_append] at third
  exact third rfl

theorem spelled_context : Spelled "--ctx-size" "c" "ctx-size" := by
  refine ⟨by decide,fun key => ?_,not_negated (by decide)⟩
  refine (longForm_eq_iff : longForm key = "--" ++ "ctx-size" ↔ _).trans ?_
  split <;> simp_all

theorem spelled_keys : Spelled "--cache-type-k" "cache-type-k" "ctk" := by
  refine ⟨by decide,fun key => ?_,not_negated (by decide)⟩
  refine (longForm_eq_iff : longForm key = "--" ++ "cache-type-k" ↔ _).trans ?_
  split <;> simp_all

theorem spelled_values : Spelled "--cache-type-v" "cache-type-v" "ctv" := by
  refine ⟨by decide,fun key => ?_,not_negated (by decide)⟩
  refine (longForm_eq_iff : longForm key = "--" ++ "cache-type-v" ↔ _).trans ?_
  split <;> simp_all

section
variable (entry : Entry) (root : OsStr) (port : ℕ)

/-- What the flags table sets, or else the field, is the last of a flag. -/
theorem last_settings (flag : String) (behind : flag ≠ "--alias" ∧ flag ≠ "--host" ∧ flag ≠ "--port") :
    last flag (settings entry root port) =
      (last flag (entry.flags.map fun pair => settingOf pair.1 pair.2)).or (last flag (fixed entry root)) := by
  have none_behind : last flag (named entry port) = none := by
    refine last_other ?_
    simp [named,Ne.symm behind.1,Ne.symm behind.2.1,Ne.symm behind.2.2]
  rw [settings,last_append,last_append,none_behind]
  rfl

theorem last_fixed_context : last "--ctx-size" (fixed entry root) =
    some ⟨"--ctx-size",some (textBytes (toString entry.contextSize))⟩ := by
  unfold fixed last
  cases entry.draftPath <;> cases entry.projectorPath <;> cases entry.reasoningFormat <;> cases entry.reasoningEffort <;>
    simp

theorem last_fixed_cache {flag : String} (cache : flag = "--cache-type-k" ∨ flag = "--cache-type-v") :
    last flag (fixed entry root) = none := by
  refine last_other ?_
  unfold fixed
  rcases cache with rfl | rfl <;> cases entry.draftPath <;> cases entry.projectorPath <;> cases entry.reasoningFormat <;>
    cases entry.reasoningEffort <;> simp

end

/-! ## What the line carries, and what is charged -/

theorem text_settingOf (key value : String) : (settingOf key value).text =
    if folded value = "true" ∨ folded value = "false" then none else some value := by
  have decoded : Path.toStr (textBytes value) = some value := by
    rw [Path.toStr,textBytes,Utf8.decode_encode,Option.map_some,String.ofList_toList]
  unfold settingOf Setting.text
  split_ifs with bare negated either either either
  all_goals first | rfl | exact decoded | simp_all

/-- A switch is no type of a cache that is known. -/
theorem width_switch {value : String} (switch : folded value = "true" ∨ folded value = "false") : width value = Estimate.F16 := by
  unfold width
  split
  · exact absurd switch (by decide)
  · exact absurd switch (by decide)
  · exact absurd switch (by decide)
  · rfl

/-- A type that is set is carried; a bare flag carries none, as an unknown type
    is charged. -/
theorem width_carried (key value : String) : width ((settingOf key value).text.getD "f16") = width value := by
  rw [text_settingOf]
  split_ifs with switch
  · exact (width_switch switch).symm
  · rfl

section
variable (reads : String → Option ℕ) (entry : Entry) (root : OsStr) (port : ℕ)

/-- What the last setting of a flag carries. -/
def carried (flag : String) : Option String := (last flag (settings entry root port)).bind Setting.text

/-- The context and the types of the cache that are charged are those the line
    carries, to a server that reads a number so. -/
structure Launched : Prop where
  context : (carried entry root port "--ctx-size").bind reads = some entry.contextSize
  keys : sixteenths entry.flags ["ctk","cache-type-k"] = width ((carried entry root port "--cache-type-k").getD "f16")
  values : sixteenths entry.flags ["ctv","cache-type-v"] = width ((carried entry root port "--cache-type-v").getD "f16")

/-- Where the later spelling of a type negates it, the earlier one names none
    that takes more or less than f16. -/
def Unmasked (flags : List (String × String)) (low high : String) : Prop :=
  ∀ negated, flags.lookup high = some negated → folded negated = "false" →
    ∀ type, flags.lookup low = some type → width type = Estimate.F16

/-- No flag sets another context than the field, and no negation of a type hides
    from the estimator the one that is set. -/
structure Undisturbed : Prop where
  context : ∀ value, (given entry.flags "ctx-size").or (given entry.flags "c") = some value →
    folded value ≠ "true" ∧ reads value = some entry.contextSize
  keys : Unmasked entry.flags "cache-type-k" "ctk"
  values : Unmasked entry.flags "cache-type-v" "ctv"

variable {reads entry root port} (ascending : Keyed.Ascending entry.flags)
include ascending

/-- The type that is charged is the one carried exactly where it is not masked. -/
theorem type_carried_iff {flag low high : String} (cache : flag = "--cache-type-k" ∨ flag = "--cache-type-v")
    (spelled : Spelled flag low high) :
    sixteenths entry.flags [high,low] = width ((carried entry root port flag).getD "f16") ↔ Unmasked entry.flags low high := by
  have behind : flag ≠ "--alias" ∧ flag ≠ "--host" ∧ flag ≠ "--port" := by rcases cache with rfl | rfl <;> decide
  have carries : carried entry root port flag =
      (((given entry.flags high).map (settingOf high)).or ((given entry.flags low).map (settingOf low))).bind Setting.text := by
    rw [carried,last_settings entry root port flag behind,last_fixed_cache entry root cache,Option.or_none,spelled.last_eq ascending]
  have looked : Estimate.flag entry.flags [high,low] = (entry.flags.lookup high).or (entry.flags.lookup low) := by
    unfold Estimate.flag
    cases first_is : entry.flags.lookup high with
    | none => cases second_is : entry.flags.lookup low <;> simp [first_is,second_is]
    | some value => simp [first_is]
  have plain : width "f16" = Estimate.F16 := by decide
  have kept (value : String) : (some value).filter (fun value => folded value ≠ "false") =
      if folded value = "false" then none else some value := by
    by_cases negated : folded value = "false" <;> simp [Option.filter,negated]
  rw [carries,Estimate.sixteenths_eq,looked,given,given]
  unfold Unmasked
  cases entry.flags.lookup high with
  | none =>
    -- The earlier spelling is all there is, for the line and for the estimator.
    refine iff_of_true ?_ fun negated is => by cases is
    cases entry.flags.lookup low with
    | none => rfl
    | some type =>
      rw [kept]
      by_cases negated : folded type = "false"
      · simp [negated,width_switch (.inr negated),plain]
      · simp [negated,width_carried low]
  | some first =>
    rw [kept]
    by_cases negated : folded first = "false"
    · -- The line drops the later spelling, and the estimator reads it.
      have charged : width first = Estimate.F16 := width_switch (.inr negated)
      cases entry.flags.lookup low with
      | none => simp [negated,charged,plain]
      | some type =>
        rw [kept]
        by_cases too : folded type = "false"
        · simp [too,negated,charged,width_switch (.inr too),plain]
        · simp [too,negated,charged,width_carried low,eq_comm]
    · refine iff_of_true ?_ fun other is hides => ?_
      · simp [negated,width_carried high]
      · cases is
        exact absurd hides negated

theorem context_carried_iff (decimal : reads (toString entry.contextSize) = some entry.contextSize) :
    (carried entry root port "--ctx-size").bind reads = some entry.contextSize ↔
      ∀ value, (given entry.flags "ctx-size").or (given entry.flags "c") = some value →
        folded value ≠ "true" ∧ reads value = some entry.contextSize := by
  have carries : carried entry root port "--ctx-size" =
      ((((given entry.flags "ctx-size").map (settingOf "ctx-size")).or ((given entry.flags "c").map (settingOf "c"))).or
        (some ⟨"--ctx-size",some (textBytes (toString entry.contextSize))⟩)).bind Setting.text := by
    rw [carried,last_settings entry root port _ (by decide),last_fixed_context,spelled_context.last_eq ascending]
  have positive {key value : String} (is : given entry.flags key = some value) : folded value ≠ "false" := by
    simpa using (Option.filter_eq_some_iff.mp is).2
  have set_iff (key : String) {value : String} (unnegated : folded value ≠ "false") :
      ((settingOf key value).text.bind reads = some entry.contextSize) ↔
        folded value ≠ "true" ∧ reads value = some entry.contextSize := by
    rw [text_settingOf]
    by_cases bare : folded value = "true" <;> simp [bare,unnegated]
  rw [carries]
  cases first : given entry.flags "ctx-size" with
  | some value => simpa using set_iff "ctx-size" (positive first)
  | none =>
    cases second : given entry.flags "c" with
    | some value => simpa using set_iff "c" (positive second)
    | none =>
      have decoded : (⟨"--ctx-size",some (textBytes (toString entry.contextSize))⟩ : Setting).text =
          some (toString entry.contextSize) := by
        rw [Setting.text,Option.bind_some,Path.toStr,textBytes,Utf8.decode_encode,Option.map_some,String.ofList_toList]
      simp only [Option.map_none,Option.or_none,Option.none_or,Option.bind_some,decoded,decimal]
      exact iff_of_true trivial fun value is => by cases is

/-- The estimate is about the line that is launched exactly where the flags
    disturb none of its three figures. -/
theorem launched_iff (decimal : reads (toString entry.contextSize) = some entry.contextSize) :
    Launched reads entry root port ↔ Undisturbed reads entry := by
  constructor
  · rintro ⟨context,keys,values⟩
    exact ⟨(context_carried_iff ascending decimal).mp context,(type_carried_iff ascending (.inl rfl) spelled_keys).mp keys,
      (type_carried_iff ascending (.inr rfl) spelled_values).mp values⟩
  · rintro ⟨context,keys,values⟩
    exact ⟨(context_carried_iff ascending decimal).mpr context,(type_carried_iff ascending (.inl rfl) spelled_keys).mpr keys,
      (type_carried_iff ascending (.inr rfl) spelled_values).mpr values⟩

end

/-! ## A flag that sets the context -/

/-- A number as it is written, of 32 bits. -/
def decimal (value : String) : Option ℕ := Text.parseUnsigned 32 value.toList

def entryWith (flags : List (String × String)) : Entry :=
  ⟨"m","m.gguf",none,none,4096,.OnDemand,512,none,none,30,none,flags⟩

theorem same_context_launched : Launched decimal (entryWith [("c","4096"),("cache-type-k","q8_0"),("ctk","q4_0")]) [] 8080 :=
  (launched_iff (by decide) (by decide)).mpr ⟨by decide,by unfold Unmasked; decide,by unfold Unmasked; decide⟩

theorem short_context_launched : ¬ Launched decimal (entryWith [("c","32768")]) [] 8080 := by
  rintro ⟨context,_,_⟩
  exact absurd context (by decide +kernel)

end Maestro.Invocation
