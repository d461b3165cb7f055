import Mathlib.Data.List.DropRight
import Mathlib.Data.List.Infix
import Mathlib.Algebra.Order.Ring.Nat

/-!
# Text as the standard library of Rust reads it

A string is the list of its scalar values. White space is the Unicode
`White_Space` property, as `str::trim` and `str::split_whitespace` take it;
case folding is over ASCII only.
-/
namespace Maestro.Text

/-- The Unicode `White_Space` property. -/
def whiteSpace (c : Char) : Bool :=
  let n := c.toNat
  (9 ≤ n && n ≤ 13) || n == 32 || n == 133 || n == 160 || n == 5760 || (8192 ≤ n && n ≤ 8202) ||
    n == 8232 || n == 8233 || n == 8239 || n == 8287 || n == 12288

/-- `str::trim_end_matches`, for a set of characters. -/
def trimEndMatches (p : Char → Bool) (s : List Char) : List Char := s.rdropWhile p

/-- `str::trim`. -/
def trim (s : List Char) : List Char := (s.dropWhile whiteSpace).rdropWhile whiteSpace

/-- `str::split_once`, at the first occurrence of a character. -/
def splitOnce (sep : Char) : List Char → Option (List Char × List Char)
  | [] => none
  | c :: rest => if c = sep then some ([], rest) else (splitOnce sep rest).map fun (l, r) => (c :: l, r)

/-- `str::rsplit_once`, at the last occurrence of a string. -/
def rsplitOnce (sep : List Char) : List Char → Option (List Char × List Char)
  | [] => none
  | c :: rest => match rsplitOnce sep rest with
    | some (l, r) => some (c :: l, r)
    | none => if sep.isPrefixOf (c :: rest) then some ([], (c :: rest).drop sep.length) else none

/-- `str::split_whitespace`, collected: the maximal runs without white space. -/
def words : List Char → List (List Char)
  | [] => []
  | c :: rest =>
    if whiteSpace c then words rest
    else match rest, words rest with
      | [], _ => [[c]]
      | d :: _, tail => if whiteSpace d then [c] :: tail else
          match tail with
          | [] => [[c]]
          | w :: more => (c :: w) :: more

/-- `char::to_ascii_lowercase`. -/
def asciiLower (c : Char) : Char := if 'A' ≤ c ∧ c ≤ 'Z' then Char.ofNat (c.toNat + 32) else c

/-- `str::to_ascii_lowercase`. -/
def toAsciiLowercase (s : List Char) : List Char := s.map asciiLower

/-- `str::eq_ignore_ascii_case`. -/
def eqIgnoreAsciiCase (a b : List Char) : Bool := toAsciiLowercase a == toAsciiLowercase b

/-- `str::contains`, for a string. -/
def contains (s part : List Char) : Bool := s.tails.any fun t => part.isPrefixOf t

/-- `str::strip_prefix`. -/
def stripPrefix (pre s : List Char) : Option (List Char) :=
  if pre.isPrefixOf s then some (s.drop pre.length) else none

/-- The value of a decimal digit. -/
def digit (c : Char) : Option Nat := if '0' ≤ c ∧ c ≤ '9' then some (c.toNat - 48) else none

/-- The digits of a number from the most significant one, none of them missing. -/
def digits (acc : Nat) : List Char → Option Nat
  | [] => some acc
  | c :: rest => match digit c with
    | none => none
    | some d => digits (acc * 10 + d) rest

/-- `str::parse` for an unsigned type of `w` bits: an optional plus sign, at
    least one digit, and a value that fits. -/
def parseUnsigned (w : Nat) (s : List Char) : Option Nat :=
  let body := match s with
    | '+' :: rest => rest
    | _ => s
  if body.isEmpty then none
  else match digits 0 body with
    | some n => if n < 2 ^ w then some n else none
    | none => none

/-- `str::trim` on a string. -/
def trimString (s : String) : String := String.ofList (trim s.toList)

example : words "GET  /v1/models HTTP/1.1".toList = ["GET".toList, "/v1/models".toList, "HTTP/1.1".toList] := by
  decide

/-- After the decimal digits of two numbers, equal texts go on equally. -/
theorem after_digits {a b : ℕ} {c d : Char} {u v : List Char} (c_other : c.isDigit = false) (d_other : d.isDigit = false)
    (same : Nat.toDigits 10 a ++ c :: u = Nat.toDigits 10 b ++ d :: v) : c :: u = d :: v := by
  have skipped (n : ℕ) (e : Char) (w : List Char) (other : e.isDigit = false) :
      (Nat.toDigits 10 n ++ e :: w).dropWhile Char.isDigit = e :: w := by
    rw [List.dropWhile_append_of_pos (fun x member => Nat.isDigit_of_mem_toDigits (by decide) (by decide) member)]
    simp [other]
  rw [← skipped a c u c_other,same,skipped b d v d_other]

/-! ## Trimming, splitting and words -/

theorem splitOnce_eq_some {sep : Char} {s l r : List Char} :
    splitOnce sep s = some (l,r) ↔ s = l ++ sep :: r ∧ sep ∉ l := by
  induction s generalizing l with
  | nil => simp [splitOnce]
  | cons c s ih =>
    unfold splitOnce
    split_ifs with here
    · subst here
      cases l with
      | nil => simp
      | cons d l =>
        simp only [Option.some.injEq,Prod.mk.injEq,reduceCtorEq,false_and,List.cons_append,List.cons.injEq,List.mem_cons,
          not_or,false_iff,not_and]
        rintro ⟨rfl,_⟩ other
        exact absurd rfl other
    · cases l with
      | nil => simp [here,Option.map_eq_some_iff]
      | cons d l =>
        simp only [Option.map_eq_some_iff,Prod.exists,Prod.mk.injEq,List.cons.injEq,List.cons_append,List.mem_cons,not_or]
        constructor
        · rintro ⟨l',r',split,⟨rfl,rfl⟩,rfl⟩
          obtain ⟨rfl,plain⟩ := ih.mp split
          exact ⟨⟨rfl,rfl⟩,Ne.symm here,plain⟩
        · rintro ⟨⟨rfl,rfl⟩,_,plain⟩
          exact ⟨l,r,ih.mpr ⟨rfl,plain⟩,⟨rfl,rfl⟩,rfl⟩

theorem trim_subset (s : List Char) : trim s ⊆ s :=
  fun _ member => (List.dropWhile_suffix whiteSpace).subset ((List.rdropWhile_prefix whiteSpace _).subset member)

theorem trim_of_blank {s : List Char} (blank : ∀ c ∈ s, whiteSpace c = true) : trim s = [] := by
  rw [trim,List.dropWhile_eq_nil_iff.mpr blank]
  rfl

/-- Given characters are checked one by one. -/
theorem forall_mem_of_all {p : Char → Bool} {value : Bool} {cs : List Char} (all : cs.all (fun c => p c == value) = true) :
    ∀ c ∈ cs, p c = value := by
  intro c member
  exact beq_iff_eq.mp (List.all_eq_true.mp all c member)

theorem trim_pad_left {pad : List Char} (blank : ∀ c ∈ pad, whiteSpace c = true) (s : List Char) :
    trim (pad ++ s) = trim s := by
  rw [trim,List.dropWhile_append_of_pos blank,trim]

theorem rdropWhile_pad {p : Char → Bool} {pad : List Char} (drops : ∀ c ∈ pad, p c = true) (s : List Char) :
    (s ++ pad).rdropWhile p = s.rdropWhile p := by
  induction pad using List.reverseRecOn with
  | nil => simp
  | append_singleton pad c ih =>
    rw [← List.append_assoc,List.rdropWhile_concat_pos _ _ _ (drops c (by simp))]
    exact ih (fun d member => drops d (by simp [member]))

/-- What trimming takes off the end is all of it to be trimmed. -/
theorem trimmed_off {p : Char → Bool} {pre more : List Char} (trims : trimEndMatches p (pre ++ more) = pre) :
    ∀ c ∈ more, p c = true := by
  induction more using List.reverseRecOn with
  | nil => simp
  | append_singleton more last ih =>
    rw [trimEndMatches,← List.append_assoc,List.rdropWhile_concat] at trims
    split_ifs at trims with goes
    · intro c member
      rcases List.mem_append.mp member with inside | same
      · exact ih trims c inside
      · rw [List.mem_singleton.mp same]
        exact goes
    · have lengths := congrArg List.length trims
      simp at lengths

theorem trimEndMatches_prefix (p : Char → Bool) (s : List Char) : trimEndMatches p s <+: s := List.rdropWhile_prefix p s

theorem stripPrefix_append (pre s : List Char) : stripPrefix pre (pre ++ s) = some s := by
  simp [stripPrefix]

theorem trim_pad_right {pad : List Char} (blank : ∀ c ∈ pad, whiteSpace c = true) (s : List Char) :
    trim (s ++ pad) = trim s := by
  by_cases all : ∀ c ∈ s, whiteSpace c = true
  · rw [trim_of_blank all,trim_of_blank]
    intro c member
    rcases List.mem_append.mp member with inside | outside
    · exact all c inside
    · exact blank c outside
  · have stays : (s ++ pad).dropWhile whiteSpace = s.dropWhile whiteSpace ++ pad := by
      rw [List.dropWhile_append,if_neg]
      simpa using all
    rw [trim,stays,trim,rdropWhile_pad blank]

theorem trim_trim (s : List Char) : trim (trim s) = trim s := by
  have front : (trim s).dropWhile whiteSpace = trim s := by
    cases is : trim s with
    | nil => rfl
    | cons c t =>
      have initial : trim s <+: s.dropWhile whiteSpace := List.rdropWhile_prefix _ _
      rw [is] at initial
      obtain ⟨more,whole⟩ := initial
      have first : ¬ whiteSpace c = true := by
        have head := List.head?_dropWhile_not whiteSpace s
        rw [← whole] at head
        simpa using head
      simp [first]
  have back : (trim s).rdropWhile whiteSpace = trim s := List.rdropWhile_idempotent _ _
  rw [trim,front,back]

theorem trim_of_plain {s : List Char} (plain : ∀ c ∈ s, whiteSpace c = false) : trim s = s := by
  have front : s.dropWhile whiteSpace = s := by
    cases s with
    | nil => rfl
    | cons c s => simp [plain c List.mem_cons_self]
  rw [trim,front,List.rdropWhile_eq_self_iff]
  intro filled
  simp [plain _ (List.getLast_mem filled)]

/-- White space in front of a text is not part of any word. -/
theorem words_blank {blank : Char} (blanks : whiteSpace blank = true) (s : List Char) : words (blank :: s) = words s :=
  if_pos blanks

theorem words_single {c : Char} (here : ¬ whiteSpace c = true) : words [c] = [[c]] := if_neg here

theorem words_ended {c d : Char} (here : ¬ whiteSpace c = true) (next : whiteSpace d = true) (s : List Char) :
    words (c :: d :: s) = [c] :: words (d :: s) :=
  (if_neg here).trans (if_pos next)

/-- A word goes on where no white space follows. -/
theorem words_longer {c d : Char} {s first : List Char} {more : List (List Char)} (here : ¬ whiteSpace c = true)
    (next : ¬ whiteSpace d = true) (rest : words (d :: s) = first :: more) : words (c :: d :: s) = (c :: first) :: more := by
  refine (if_neg here).trans ((if_neg next).trans ?_)
  rw [rest]

/-- No word carries white space. -/
theorem words_plain {s w : List Char} (member : w ∈ words s) : ∀ c ∈ w, whiteSpace c = false := by
  induction s generalizing w with
  | nil => cases member
  | cons c rest ih =>
    by_cases blank : whiteSpace c = true
    · rw [words_blank blank] at member
      exact ih member
    have plain : whiteSpace c = false := by simpa using blank
    cases rest with
    | nil =>
      rw [words_single blank] at member
      obtain rfl : w = [c] := by simpa using member
      simpa using plain
    | cons d others =>
      by_cases next : whiteSpace d = true
      · rw [words_ended blank next] at member
        rcases List.mem_cons.mp member with rfl | later
        · simpa using plain
        · exact ih later
      · cases found : words (d :: others) with
        | nil =>
          have alone : words (c :: d :: others) = [[c]] := by
            refine (if_neg blank).trans ((if_neg next).trans ?_)
            rw [found]
          rw [alone] at member
          obtain rfl : w = [c] := by simpa using member
          simpa using plain
        | cons first more =>
          rw [words_longer blank next found] at member
          rcases List.mem_cons.mp member with rfl | later
          · intro e inside
            rcases List.mem_cons.mp inside with rfl | within
            · exact plain
            · exact ih (by rw [found]; exact List.mem_cons_self) e within
          · exact ih (by rw [found]; exact List.mem_cons_of_mem _ later)

/-- A word and what is behind its white space. -/
theorem words_cons {w : List Char} (named : w ≠ []) (plain : ∀ c ∈ w, whiteSpace c = false) {blank : Char}
    (blanks : whiteSpace blank = true) (s : List Char) : words (w ++ blank :: s) = w :: words s := by
  induction w with
  | nil => exact absurd rfl named
  | cons c w ih =>
    have here : ¬ whiteSpace c = true := by simp [plain c List.mem_cons_self]
    cases w with
    | nil => exact (words_ended here blanks s).trans (congrArg _ (words_blank blanks s))
    | cons d w =>
      have next : ¬ whiteSpace d = true := by simp [plain d (by simp)]
      have rest : words (d :: (w ++ blank :: s)) = (d :: w) :: words s :=
        ih (by simp) fun e inside => plain e (List.mem_cons_of_mem _ inside)
      exact words_longer here next rest

/-- Text without white space is one word. -/
theorem words_of_plain {w : List Char} (named : w ≠ []) (plain : ∀ c ∈ w, whiteSpace c = false) : words w = [w] := by
  induction w with
  | nil => exact absurd rfl named
  | cons c w ih =>
    have here : ¬ whiteSpace c = true := by simp [plain c List.mem_cons_self]
    cases w with
    | nil => exact words_single here
    | cons d w =>
      have next : ¬ whiteSpace d = true := by simp [plain d (by simp)]
      have rest := ih (by simp) fun e inside => plain e (List.mem_cons_of_mem _ inside)
      exact words_longer here next rest

/-- Text without white space that is not empty. -/
structure IsWord (w : List Char) : Prop where
  named : w ≠ []
  plain : ∀ c ∈ w, whiteSpace c = false

/-- Three words with a space between them. -/
theorem words_line {first second third : List Char} (a : IsWord first) (b : IsWord second) (c : IsWord third) :
    words (first ++ ' ' :: (second ++ ' ' :: third)) = [first,second,third] := by
  have blank : whiteSpace ' ' = true := by decide
  rw [words_cons a.named a.plain blank,words_cons b.named b.plain blank,words_of_plain c.named c.plain]

end Maestro.Text
