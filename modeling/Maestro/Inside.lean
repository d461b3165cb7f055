import Maestro.Lexical
import Maestro.Estimate
import Maestro.Fields
import Maestro.Paths

/-!
# Whether a location stays inside the models root

A location is joined to the root and taken apart again, with the separators of
Unix or those of Windows. Whether what it comes to is below the root depends on
the steps up in it, which nothing looks at when the location is accepted.
-/
namespace Maestro.Inside
open Lexical (follow reduced)
open Maestro.Path (SLASH DOT)

def BACKSLASH : UInt8 := 0x5C

def COLON : UInt8 := 0x3A

/-- A step up. -/
def UP : OsStr := [DOT,DOT]

/-! ## Two kinds of separators -/

inductive Style
  | Unix
  | Windows
deriving DecidableEq, Repr

namespace Style

/-- `is_separator`. -/
def separates : Style → UInt8 → Bool
  | .Unix, byte => byte = SLASH
  | .Windows, byte => byte = SLASH || byte = BACKSLASH

/-- `MAIN_SEPARATOR`. -/
def main : Style → UInt8
  | .Unix => SLASH
  | .Windows => BACKSLASH

/-- A letter of a drive. -/
def isLetter (byte : UInt8) : Bool := (Char.ofNat byte.toNat).isAlpha

/-- Whether a path stands for itself, or begins at the root or at a drive of its
    own, wherever it is joined to. -/
def anchored : Style → OsStr → Bool
  | .Unix, path => path.head? = some SLASH
  | .Windows, path => match path with
    | letter :: byte :: _ => Style.separates .Windows letter || (byte = COLON && isLetter letter)
    | [byte] => Style.separates .Windows byte
    | [] => false

/-- `Path::join`, of a location that is not anchored. -/
def join (style : Style) (base location : OsStr) : OsStr :=
  if style.anchored location then location
  else if base = [] ∨ base.getLast?.any style.separates then base ++ location
  else base ++ style.main :: location

/-- The names and the steps up of a path, behind its anchor. -/
def parts (style : Style) (path : OsStr) : List OsStr := (path.splitOnP style.separates).filter fun part => part ≠ [] ∧ part ≠ [DOT]

/-- `.` and `..` taken out of a path behind its anchor. -/
def normal (style : Style) (path : OsStr) : List OsStr := follow UP [] (style.parts path)

/-- What stands in front of the root of an absolute path: nothing on Unix, a
    drive or a share on Windows, but none that is taken word for word. -/
inductive Anchor : Style → OsStr → Prop
  | Unix : Anchor .Unix []
  | Drive (letter : UInt8) : isLetter letter = true → Anchor .Windows [letter,COLON]
  | Share (first second third : UInt8) (server share : OsStr) :
      (∀ byte ∈ [first,second,third], separates .Windows byte = true) →
      (∀ byte ∈ server ++ share, separates .Windows byte = false) → server ≠ Gguf.textBytes "?" → share ≠ [] →
      Anchor .Windows (first :: second :: (server ++ third :: share))

/-- An absolute root, in two: its anchor and what is behind it. There may be
    nothing behind a share. -/
inductive Root : Style → OsStr → OsStr → Prop
  | Rooted {style : Style} {anchor : OsStr} (separator : UInt8) (rest : OsStr) :
      Anchor style anchor → style.separates separator = true → Root style anchor (separator :: rest)
  | Share {first second third : UInt8} {server share : OsStr} :
      Anchor .Windows (first :: second :: (server ++ third :: share)) →
      (∀ byte ∈ share, separates .Windows byte = false) → share ≠ [] →
      Root .Windows (first :: second :: (server ++ third :: share)) []

/-! ## Joined and taken apart -/

/-- On Unix this is how a location is resolved. -/
theorem join_unix (root : OsStr) (location : String) : join .Unix root (Gguf.textBytes location) = Estimate.resolve root location := by
  have ending : (root.getLast?.any (separates .Unix)) = true ↔ root.getLast? = some SLASH := by
    cases root.getLast? <;> simp [separates]
  unfold join Estimate.resolve Path.join anchored main
  simp only [ending,decide_eq_true_eq]

theorem parts_unix (path : OsStr) : parts .Unix path = Path.partsOf path := by
  rw [parts,Path.partsOf,List.splitOn_eq_splitOnP]
  rfl

section
variable {style : Style}

theorem parts_separated (before behind : OsStr) {separator : UInt8} (separates : style.separates separator = true) :
    style.parts (before ++ separator :: behind) = style.parts before ++ style.parts behind := by
  rw [parts,List.splitOnP_append_cons _ _ separates,List.filter_append]
  rfl

/-- The parts of a location come behind those of the root. -/
theorem join_root {anchor rest : OsStr} (root : Root style anchor rest) {location : OsStr}
    (free : style.anchored location = false) :
    ∃ behind, style.join (anchor ++ rest) location = anchor ++ behind ∧
      style.parts behind = style.parts rest ++ style.parts location := by
  have main_separates : style.separates style.main = true := by cases style <;> decide
  unfold join
  rw [if_neg (by simp [free])]
  split_ifs with ending
  · refine ⟨rest ++ location,List.append_assoc _ _ _,?_⟩
    cases root with
    | Rooted separator more _ _ =>
      have last : ((separator :: more).getLast?.any style.separates) = true := by
        rcases ending with empty | slashed
        · simp at empty
        · rwa [List.getLast?_append_cons] at slashed
      obtain ⟨byte,is,separates⟩ := (Option.any_eq_true ..).mp last
      obtain ⟨before,same⟩ := List.getLast?_eq_some_iff.mp is
      have none_behind : style.parts [] = [] := by cases style <;> rfl
      rw [same,List.append_assoc,List.singleton_append,parts_separated _ _ separates,parts_separated _ _ separates,none_behind,
        List.append_nil]
    | Share _ plain some =>
      -- A share does not end in a separator.
      exfalso
      rcases ending with empty | slashed
      · simp at empty
      · obtain ⟨byte,is,separates⟩ := (Option.any_eq_true ..).mp slashed
        rw [List.append_nil,List.getLast?_cons_cons,List.getLast?_cons_of_ne_nil (by simp),List.getLast?_append_cons,
          List.getLast?_cons_of_ne_nil some] at is
        rw [plain byte (List.mem_of_mem_getLast? is)] at separates
        cases separates
  · exact ⟨rest ++ style.main :: location,List.append_assoc _ _ _,parts_separated rest location main_separates⟩

end

/-- A location comes to a place below the root: behind the same anchor, the names
    of the root are those it begins with. -/
def Within (style : Style) (anchor rest location : OsStr) : Prop :=
  ∃ behind, style.join (anchor ++ rest) location = anchor ++ behind ∧ style.normal rest <+: style.normal behind

/-- The names that the steps up of a location lead out of, of those of the root. -/
def left (style : Style) (rest location : OsStr) : List OsStr :=
  (style.normal rest).drop ((style.normal rest).length - (reduced UP (style.parts location)).ups)

end Style

/-! ## What is accepted -/

/-- A text that begins with a character below 128 begins with it as a byte. -/
theorem anchored_accepted {value location : String} (accepted : Fields.RelativePath.new value = .ok location) (style : Style) :
    style.anchored (Gguf.textBytes location) = false := by
  obtain ⟨rfl,relative⟩ := Fields.new_eq_ok_iff.mp accepted
  have apart (byte : UInt8) (ascii : byte.toNat < 128) (c : Char) (code : c.toNat = byte.toNat)
      (other : location.toList.head? ≠ some c) : (Gguf.textBytes location).head? ≠ some byte := by
    intro head
    obtain ⟨rest,is⟩ := List.head?_eq_some_iff.mp head
    obtain ⟨d,after,letters,same,_⟩ := Utf8.encode_eq_cons ascii is
    rw [letters] at other
    exact other (congrArg some (Char.toNat_inj.mp (same.trans code.symm)))
  have slash := apart SLASH (by decide) '/' (by decide) relative.rootless.1
  have backslash := apart BACKSLASH (by decide) '\\' (by decide) relative.rootless.2
  have drive (letter : UInt8) (rest : OsStr) (is : Gguf.textBytes location = letter :: COLON :: rest) :
      Style.isLetter letter = false := by
    have text : Utf8.encode location.toList = letter :: COLON :: rest := is
    by_contra alpha
    have alpha : Style.isLetter letter = true := by simpa using alpha
    have small : letter.toNat < 128 := by
      by_contra big
      have beyond : ∀ n < 256, 128 ≤ n → (Char.ofNat n).isAlpha = false := by decide +kernel
      rw [Style.isLetter,beyond _ letter.toNat_lt (Nat.not_lt.mp big)] at alpha
      cases alpha
    obtain ⟨c,after,letters,same,behind⟩ := Utf8.encode_eq_cons small text
    obtain ⟨d,others,after_is,colon,_⟩ := Utf8.encode_eq_cons (by decide) behind.symm
    have drive := relative.driveless c others (by
      rw [letters,after_is,Char.toNat_inj.mp (colon.trans (by decide : COLON.toNat = ':'.toNat))])
    rw [Style.isLetter,← same,Char.ofNat_toNat,drive] at alpha
    cases alpha
  cases style with
  | Unix => simpa [Style.anchored] using slash
  | Windows =>
    unfold Style.anchored
    generalize Gguf.textBytes location = path at slash backslash drive
    have plain (byte : UInt8) (rest : OsStr) (is : path = byte :: rest) : Style.separates .Windows byte = false := by
      subst is
      have slash : byte ≠ SLASH := fun same => slash (congrArg some same)
      have backslash : byte ≠ BACKSLASH := fun same => backslash (congrArg some same)
      simp [Style.separates,slash,backslash]
    match path with
    | [] => rfl
    | [byte] => exact plain byte [] rfl
    | letter :: byte :: rest =>
      show (Style.separates .Windows letter || (byte = COLON && Style.isLetter letter)) = false
      rw [plain letter _ rfl,Bool.false_or,Bool.and_eq_false_iff]
      by_cases colon : byte = COLON
      · subst colon
        exact .inr (drive letter rest rfl)
      · exact .inl (decide_eq_false colon)

section
variable {style : Style} {anchor rest : OsStr} (root : style.Root anchor rest) {value location : String}
  (accepted : Fields.RelativePath.new value = .ok location)
include root accepted

/-- A location that is accepted comes to where its parts lead from the root. -/
theorem within_iff : style.Within anchor rest (Gguf.textBytes location) ↔
    style.normal rest <+: follow UP (style.normal rest) (style.parts (Gguf.textBytes location)) := by
  obtain ⟨behind,joined,parts⟩ := Style.join_root root (anchored_accepted accepted style)
  have normal : style.normal behind = follow UP (style.normal rest) (style.parts (Gguf.textBytes location)) := by
    rw [Style.normal,parts,Lexical.follow_append]
    rfl
  rw [← normal]
  constructor
  · rintro ⟨other,also,inside⟩
    rw [joined] at also
    rw [List.append_cancel_left also]
    exact inside
  · exact fun inside => ⟨behind,joined,inside⟩

/-- It stays inside the root exactly where its names begin with those that its
    steps up lead out of. -/
theorem location_inside_iff : style.Within anchor rest (Gguf.textBytes location) ↔
    style.left rest (Gguf.textBytes location) <+: (reduced UP (style.parts (Gguf.textBytes location))).names :=
  (within_iff root accepted).trans (Lexical.below_iff UP _ _)

/-- Without a step up left over it stays inside any root. -/
theorem location_inside (none : (reduced UP (style.parts (Gguf.textBytes location))).ups = 0) :
    style.Within anchor rest (Gguf.textBytes location) :=
  (within_iff root accepted).mpr (Lexical.below_of_ups UP none _)

end

/-! ## One step up -/

/-- A root on either system: its anchor, and what is behind it. -/
def rootOf : Style → OsStr × OsStr
  | .Unix => ([],Gguf.textBytes "/models")
  | .Windows => (Gguf.textBytes "C:",Gguf.textBytes "\\models")

theorem rootOf_root (style : Style) : style.Root (rootOf style).1 (rootOf style).2 := by
  cases style with
  | Unix => exact .Rooted SLASH (Gguf.textBytes "models") .Unix rfl
  | Windows => exact .Rooted BACKSLASH (Gguf.textBytes "models") (.Drive 0x43 (by decide)) rfl

/-- A step up that takes back a name before it leads nowhere else. -/
theorem name_stays_inside : Style.Within .Unix [] (Gguf.textBytes "/models") (Gguf.textBytes "a/../b.gguf") ∧
    Style.Within .Windows (Gguf.textBytes "C:") (Gguf.textBytes "\\models") (Gguf.textBytes "a/../b.gguf") := by
  have accepted : Fields.RelativePath.new "a/../b.gguf" = .ok "a/../b.gguf" := by decide +kernel
  exact ⟨(location_inside_iff (rootOf_root .Unix) accepted).mpr (by decide +kernel),
    (location_inside_iff (rootOf_root .Windows) accepted).mpr (by decide +kernel)⟩

theorem step_up_leads_out : Fields.RelativePath.new "../x.gguf" = .ok "../x.gguf" ∧
    ∀ style, ¬ Style.Within style (rootOf style).1 (rootOf style).2 (Gguf.textBytes "../x.gguf") := by
  refine ⟨by decide +kernel,?_⟩
  rintro style ⟨behind,joined,inside⟩
  cases style with
  | Unix =>
    have is : Gguf.textBytes "/models/../x.gguf" = behind := (by decide +kernel : _ = _).trans joined
    rw [← is] at inside
    exact absurd inside (by decide +kernel)
  | Windows =>
    have is : (rootOf .Windows).1 ++ Gguf.textBytes "\\models\\../x.gguf" = (rootOf .Windows).1 ++ behind :=
      (by decide +kernel : _ = _).trans joined
    rw [← List.append_cancel_left is] at inside
    exact absurd inside (by decide +kernel)

end Maestro.Inside
