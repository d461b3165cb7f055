import Maestro.Reported
import Maestro.Toml
import Maestro.Catalog

/-!
# Reading one field, and naming it when it is wrong

Two readers and a handful of converters. The readers know where a value lives
and report what is wrong with it by entry and field; the converters know what a
value must look like.
-/
namespace Maestro.Fields
open Toml (Value Pairs get)

/-! ## Locations -/

/-- What a location is anchored to, when it is anchored to anything. -/
def anchorOf (value : String) : Option String :=
  if "\\\\".toList.isPrefixOf value.toList then some "a network share"
  else if value.toList.head? = some '/' ∨ value.toList.head? = some '\\' then some "a filesystem root"
  else match value.toList with
    | letter :: colon :: _ => if colon = ':' ∧ letter.isAlpha then some "a drive letter" else none
    | _ => none

/-- A location inside the models root. -/
structure Relative (location : String) : Prop where
  named : location ≠ ""
  rootless : location.toList.head? ≠ some '/' ∧ location.toList.head? ≠ some '\\'
  driveless : ∀ letter rest, location.toList = letter :: ':' :: rest → letter.isAlpha = false

/-- Accepts a relative location, refusing anything anchored. -/
def RelativePath.new (value : String) : Except String String :=
  if value.isEmpty then .error "must not be empty"
  else match anchorOf value with
    | some anchor => .error s!"must be relative to the models root, but '{value}' is anchored to {anchor}"
    | none => .ok value

/-! ## Problems -/

/-- One problem, with what it is about; one of a whole entry names no field. -/
structure Problem where
  scope : String
  field : Option String
  complaint : String
deriving DecidableEq, Repr

/-- The problem in words, phrased the same way every time. -/
def Problem.text (self : Problem) : String :=
  match self.field with
  | none => self.scope ++ ": " ++ self.complaint
  | some field => s!"{self.scope}: field '{field}' {self.complaint}"

/-- One problem of a field. -/
def problem (scope field complaint : String) : Problem := ⟨scope,some field,complaint⟩

@[simp] theorem problem_scope (scope field complaint : String) : (problem scope field complaint).scope = scope := (rfl)

@[simp] theorem problem_field (scope field complaint : String) : (problem scope field complaint).field = some field := (rfl)

@[simp] theorem problem_complaint (scope field complaint : String) : (problem scope field complaint).complaint = complaint := (rfl)

/-! ## The readers -/

section
variable (table : Pairs) (scope field : String)

/-- Names any field the schema does not define. -/
def reportUnknown (known : List String) : Reported Problem Unit :=
  .reportAll (((Toml.keys table).filter (· ∉ known)).map fun key => problem scope key "is not recognised")

/-- A nested table; only a malformed one is a problem. -/
def tableAt : Reported Problem (Option Pairs) :=
  match get table field with
  | none => return none
  | some value => do
    if (Toml.asTable value).isNone then .report (problem scope field "must be a table")
    return Toml.asTable value

variable {α : Type} (parse : Value → Except String α)

/-- A field the catalog may omit. -/
def optional : Reported Problem (Option α) :=
  match get table field with
  | none => return none
  | some value => match parse value with
    | .ok value => return some value
    | .error complaint => do
      .report (problem scope field complaint)
      return none

/-- A field the catalog must carry. -/
def required : Reported Problem (Option α) := do
  if (get table field).isNone then
    .report (problem scope field "is required")
    return none
  optional table scope field parse

end

/-! ## The converters -/

def asText (value : Value) : Except String String :=
  match Toml.asStr value with
  | some text => .ok text
  | none => .error "must be a string"

/-- A number of 32 bits that is not zero. -/
def asPositive (value : Value) : Except String ℕ :=
  match Toml.asInteger value with
  | none => .error "must be a whole number"
  | some number =>
    if 0 < number ∧ number < 2 ^ 32 then .ok number.toNat else .error s!"must be greater than zero, but is {number}"

/-- The spelling of a residency, one of two. -/
def residencyNames : List String := ["resident","on-demand"]

def parseResidency (value : String) : Option Residency :=
  if value = "resident" then some .Resident else if value = "on-demand" then some .OnDemand else none

def asResidency (value : Value) : Except String Residency := do
  let text ← asText value
  match parseResidency text with
  | some residency => .ok residency
  | none =>
    let names := " or ".intercalate residencyNames
    .error s!"must be one of {names}, but is '{text}'"

/-- A runtime name, which becomes part of a binary name on the search path. -/
def asRuntime (value : Value) : Except String String := do
  let text ← asText value
  if !text.isEmpty && text.toList.all (fun c => c.isLower || c.isDigit || c = '-') then .ok text
  else .error ("must be lowercase letters, digits and hyphens, because it names a binary beside llama-server, " ++
    s!"but is '{text}'")

def asLocation (value : Value) : Except String String := do
  RelativePath.new (← asText value)

/-- One setting passed through untouched. -/
def flag (scope : String) (key : String) (value : Value) : Reported Problem (Option (String × String)) :=
  match asText value with
  | .ok text => return some (key,text)
  | .error _ => do
    .report (problem scope "flags" s!"carries '{key}', which must be a string")
    return none

/-- The settings of a table, by key. -/
def flags (table : Pairs) (scope : String) : Reported Problem (List (String × String)) := do
  match ← tableAt table scope "flags" with
  | none => return []
  | some inner => return (← inner.mapM fun (key,value) => flag scope key value).reduceOption

/-! ## What the readers find -/

/-- What is anchored to nothing begins with no root and no drive. -/
theorem anchorOf_eq_none_iff {value : String} : anchorOf value = none ↔
    (value.toList.head? ≠ some '/' ∧ value.toList.head? ≠ some '\\') ∧
      ∀ letter rest, value.toList = letter :: ':' :: rest → letter.isAlpha = false := by
  unfold anchorOf
  generalize value.toList = chars
  by_cases rooted : chars.head? = some '/' ∨ chars.head? = some '\\'
  · rw [if_pos rooted]
    refine iff_of_false (by split_ifs <;> simp) ?_
    rintro ⟨⟨slash,backslash⟩,_⟩
    rcases rooted with is | is
    · exact slash is
    · exact backslash is
  have unshared : ¬ "\\\\".toList.isPrefixOf chars = true := by
    intro shared
    obtain ⟨rest,rfl⟩ := List.isPrefixOf_iff_prefix.mp shared
    exact rooted (.inr rfl)
  rw [if_neg rooted,if_neg unshared]
  refine Iff.trans ?_ (and_iff_right (not_or.mp rooted)).symm
  match chars with
  | [] => simp
  | [_] => simp
  | letter :: colon :: rest =>
    simp only [List.cons.injEq]
    constructor
    · rintro drive _ _ ⟨rfl,rfl,_⟩
      simpa using drive
    · intro driveless
      rw [if_neg]
      rintro ⟨rfl,alpha⟩
      rw [driveless letter rest ⟨rfl,rfl,rfl⟩] at alpha
      cases alpha

theorem new_eq_ok_iff {value location : String} :
    RelativePath.new value = .ok location ↔ location = value ∧ Relative value := by
  unfold RelativePath.new
  by_cases empty : value.isEmpty = true
  · rw [if_pos empty]
    constructor
    · intro is
      cases is
    · rintro ⟨_,relative⟩
      exact absurd (String.isEmpty_iff.mp empty) relative.named
  rw [if_neg empty]
  cases anchored : anchorOf value with
  | some anchor =>
    constructor
    · intro is
      cases is
    · rintro ⟨_,relative⟩
      rw [anchorOf_eq_none_iff.mpr ⟨relative.rootless,relative.driveless⟩] at anchored
      cases anchored
  | none =>
    obtain ⟨rootless,driveless⟩ := anchorOf_eq_none_iff.mp anchored
    constructor
    · intro is
      cases is
      exact ⟨rfl,fun same => empty (String.isEmpty_iff.mpr same),rootless,driveless⟩
    · rintro ⟨rfl,_⟩
      rfl

theorem asPositive_eq_ok_iff {value : Value} {n : ℕ} :
    asPositive value = .ok n ↔ value = .Integer n ∧ 0 < n ∧ n < 2 ^ 32 := by
  unfold asPositive Toml.asInteger
  cases value with
  | Integer number =>
    dsimp only
    split_ifs with fits
    · constructor
      · intro is
        cases is
        obtain ⟨positive,small⟩ := fits
        refine ⟨?_,by omega,by omega⟩
        rw [Int.toNat_of_nonneg (by omega)]
      · rintro ⟨is,_⟩
        cases is
        rfl
    · constructor
      · intro is
        cases is
      · rintro ⟨is,positive,small⟩
        cases is
        exact absurd ⟨by omega,by omega⟩ fits
  | _ => simp

theorem asText_eq_ok_iff {value : Value} {text : String} : asText value = .ok text ↔ value = .String text := by
  unfold asText
  cases value <;> simp [Toml.asStr]

theorem asLocation_eq_ok_iff {value : Value} {location : String} :
    asLocation value = .ok location ↔ value = .String location ∧ Relative location := by
  unfold asLocation
  cases text : asText value with
  | error complaint =>
    constructor
    · intro is
      cases is
    · rintro ⟨is,_⟩
      rw [asText_eq_ok_iff.mpr is] at text
      cases text
  | ok found =>
    have is := asText_eq_ok_iff.mp text
    refine new_eq_ok_iff.trans ?_
    constructor
    · rintro ⟨rfl,relative⟩
      exact ⟨is,relative⟩
    · rintro ⟨same,relative⟩
      cases is.symm.trans same
      exact ⟨rfl,relative⟩

section
variable {table : Pairs} {scope field : String} {α : Type} {parse : Value → Except String α}

/-- The value of a field, where it is there and acceptable. -/
def accepted (table : Pairs) (field : String) (parse : Value → Except String α) : Option α :=
  (get table field).bind fun value => (parse value).toOption

theorem accepted_eq_some {value : α} :
    accepted table field parse = some value ↔ ∃ found, get table field = some found ∧ parse found = .ok value := by
  unfold accepted
  rw [Option.bind_eq_some_iff]
  refine exists_congr fun found => and_congr_right fun _ => ?_
  cases parse found <;> simp [Except.toOption]

@[simp] theorem value_optional : (optional table scope field parse).value = accepted table field parse := by
  unfold optional accepted
  cases get table field with
  | none => rfl
  | some value =>
    dsimp only [Option.bind_some]
    cases parse value <;> rfl

@[simp] theorem value_required : (required table scope field parse).value = accepted table field parse := by
  unfold required
  cases is : get table field with
  | none => simp [accepted,is]
  | some value => simp

/-- Nothing is reported of a field that is absent or acceptable. -/
theorem optional_clean : (optional table scope field parse).reports = [] ↔
    (get table field).isSome → (accepted table field parse).isSome := by
  unfold optional accepted
  cases get table field with
  | none => simp
  | some value =>
    dsimp only [Option.bind_some]
    cases parse value <;> simp [Except.toOption]

/-- Nothing is reported of a required field that is there and acceptable. -/
theorem required_clean : (required table scope field parse).reports = [] ↔ (accepted table field parse).isSome := by
  unfold required
  cases is : get table field with
  | none => simp [accepted,is]
  | some value =>
    simp [optional_clean,is]

/-- The table under a key, where there is one. -/
def tableOf (table : Pairs) (field : String) : Option Pairs := (get table field).bind Toml.asTable

@[simp] theorem value_tableAt : (tableAt table scope field).value = tableOf table field := by
  unfold tableAt tableOf
  cases get table field with
  | none => rfl
  | some value =>
    dsimp only [Option.bind_some]
    cases Toml.asTable value <;> simp

theorem tableOf_eq_some {inner : Pairs} : tableOf table field = some inner ↔ get table field = some (.Table inner) := by
  unfold tableOf
  rw [Option.bind_eq_some_iff]
  constructor
  · rintro ⟨value,is,inner_is⟩
    rw [is,Toml.asTable_eq_some.mp inner_is]
  · intro is
    exact ⟨_,is,rfl⟩

/-- Nothing is reported of a table that is absent or one. -/
theorem tableAt_clean : (tableAt table scope field).reports = [] ↔
    ∀ value, get table field = some value → ∃ inner, value = .Table inner := by
  unfold tableAt
  cases get table field with
  | none => simp
  | some value =>
    dsimp only
    cases is : Toml.asTable value with
    | none =>
      refine iff_of_false (by simp) fun all => ?_
      obtain ⟨inner,rfl⟩ := all value rfl
      cases is
    | some inner =>
      refine iff_of_true (by simp) fun other same => ?_
      cases same
      exact ⟨inner,Toml.asTable_eq_some.mp is⟩

theorem value_flag (key : String) (value : Value) :
    (flag scope key value).value = (Toml.asStr value).map fun text => (key,text) := by
  unfold flag asText
  cases Toml.asStr value <;> rfl

/-- The settings of a table: those that are text. -/
theorem value_flags : (flags table scope).value =
    ((tableOf table "flags").getD []).filterMap fun pair => (Toml.asStr pair.2).map fun text => (pair.1,text) := by
  unfold flags
  rw [Reported.value_bind,value_tableAt]
  cases tableOf table "flags" with
  | none => rfl
  | some inner =>
    show ((inner.mapM fun pair => flag scope pair.1 pair.2).value).filterMap id = _
    rw [Option.getD_some,Reported.value_mapM,List.filterMap_map]
    exact List.filterMap_congr fun pair _ => value_flag pair.1 pair.2

end
end Maestro.Fields
