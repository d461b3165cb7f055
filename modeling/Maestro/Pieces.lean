import Maestro.Text

/-!
# Lines, numerals, and the last of a separator

What a text is when it is taken apart: its lines, the number a numeral stands
for, and what is in front of and behind the last occurrence of a separator.
-/
namespace Maestro.Text

/-- `str::lines`, collected: each ends at a line feed, and a carriage return in
    front of the line feed is no part of it. -/
def lines : List Char → List (List Char)
  | [] => []
  | '\n' :: rest => [] :: lines rest
  | '\r' :: '\n' :: rest => [] :: lines rest
  | c :: rest => match lines rest with
    | [] => [[c]]
    | first :: more => (c :: first) :: more

example : lines "1, 2\r\n\n3\r".toList = ["1, 2".toList, [], "3\r".toList] := by decide

/-- What is no white space stays in a text that is trimmed. -/
theorem trim_keeps {c : Char} {s : List Char} (dark : whiteSpace c = false) (member : c ∈ s) : c ∈ trim s := by
  have kept (t : List Char) (inside : c ∈ t) : c ∈ t.dropWhile whiteSpace := by
    rw [← @List.takeWhile_append_dropWhile _ whiteSpace t] at inside
    rcases List.mem_append.mp inside with taken | left
    · have white := List.mem_takeWhile_imp taken
      rw [dark] at white
      cases white
    · exact left
  rw [trim,List.rdropWhile,List.mem_reverse]
  exact kept _ (List.mem_reverse.mpr (kept s member))

/-! ## Numerals -/

/-- An unsigned decimal number as `str::parse` takes it, of any size: at least
    one digit, behind a plus sign or none. -/
def Numeral (s : List Char) (n : ℕ) : Prop :=
  ∃ ds : List Char, (s = ds ∨ s = '+' :: ds) ∧ ds ≠ [] ∧ (∀ d ∈ ds, d.isDigit = true) ∧ n = Nat.ofDigitChars 10 ds 0

theorem digit_of_isDigit {c : Char} (is : c.isDigit = true) : digit c = some (c.toNat - '0'.toNat) := by
  rw [Char.isDigit,Bool.and_eq_true,decide_eq_true_eq,decide_eq_true_eq] at is
  exact if_pos is

theorem digit_of_other {c : Char} (other : ¬ c.isDigit = true) : digit c = none := by
  rw [Char.isDigit,Bool.and_eq_true,decide_eq_true_eq,decide_eq_true_eq] at other
  exact if_neg other

theorem digits_eq_some {s : List Char} {acc n : ℕ} :
    digits acc s = some n ↔ (∀ d ∈ s, d.isDigit = true) ∧ n = Nat.ofDigitChars 10 s acc := by
  induction s generalizing acc with
  | nil => simpa [digits] using eq_comm
  | cons c s ih =>
    rw [List.forall_mem_cons]
    by_cases is : c.isDigit = true
    · rw [digits,digit_of_isDigit is]
      dsimp only
      rw [ih,Nat.ofDigitChars_cons,Nat.mul_comm acc 10,and_iff_right is]
    · rw [digits,digit_of_other is]
      exact iff_of_false nofun fun whole => is whole.1.1

/-- Behind a sign, or where there is none, the digits are the number. -/
theorem body_eq_some {w n : ℕ} {body : List Char} :
    (if body.isEmpty then none else match digits 0 body with
      | some n => if n < 2 ^ w then some n else none
      | none => none) = some n ↔
    (body ≠ [] ∧ (∀ d ∈ body, d.isDigit = true) ∧ n = Nat.ofDigitChars 10 body 0) ∧ n < 2 ^ w := by
  cases body with
  | nil => simp
  | cons c body =>
    rw [if_neg (by simp),← digits_eq_some]
    cases read : digits 0 (c :: body) with
    | none => simp
    | some m =>
      dsimp only
      constructor
      · intro within
        split_ifs at within with fits
        cases within
        exact ⟨⟨by simp,rfl⟩,fits⟩
      · rintro ⟨⟨_,is⟩,fits⟩
        cases is
        exact if_pos fits

theorem numeral_of_sign {rest : List Char} {n : ℕ} : Numeral ('+' :: rest) n ↔
    rest ≠ [] ∧ (∀ d ∈ rest, d.isDigit = true) ∧ n = Nat.ofDigitChars 10 rest 0 := by
  constructor
  · rintro ⟨ds,whole | whole,some_digit,body,is⟩
    · subst whole
      exact absurd (body '+' List.mem_cons_self) (by decide)
    · cases whole
      exact ⟨some_digit,body,is⟩
  · exact fun ⟨some_digit,body,is⟩ => ⟨rest,.inr rfl,some_digit,body,is⟩

theorem numeral_of_no_sign {s : List Char} {n : ℕ} (unsigned : ∀ rest, s ≠ '+' :: rest) : Numeral s n ↔
    s ≠ [] ∧ (∀ d ∈ s, d.isDigit = true) ∧ n = Nat.ofDigitChars 10 s 0 := by
  constructor
  · rintro ⟨ds,rfl | whole,some_digit,body,is⟩
    · exact ⟨some_digit,body,is⟩
    · exact absurd whole (unsigned ds)
  · exact fun ⟨some_digit,body,is⟩ => ⟨s,.inl rfl,some_digit,body,is⟩

/-- A text is read as a number exactly where it is a numeral that fits. -/
theorem parseUnsigned_eq_some {w n : ℕ} {s : List Char} : parseUnsigned w s = some n ↔ Numeral s n ∧ n < 2 ^ w := by
  by_cases sign : ∃ rest, s = '+' :: rest
  · obtain ⟨rest,rfl⟩ := sign
    rw [numeral_of_sign]
    exact body_eq_some
  · have unsigned : ∀ rest, s ≠ '+' :: rest := fun rest is => sign ⟨rest,is⟩
    rw [numeral_of_no_sign unsigned,← body_eq_some]
    unfold parseUnsigned
    split
    · exact absurd rfl (unsigned _)
    · rfl

theorem Numeral.unique {s : List Char} {m n : ℕ} (a : Numeral s m) (b : Numeral s n) : m = n := by
  by_cases sign : ∃ rest, s = '+' :: rest
  · obtain ⟨rest,rfl⟩ := sign
    exact (numeral_of_sign.mp a).2.2.trans (numeral_of_sign.mp b).2.2.symm
  · have unsigned : ∀ rest, s ≠ '+' :: rest := fun rest is => sign ⟨rest,is⟩
    exact ((numeral_of_no_sign unsigned).mp a).2.2.trans ((numeral_of_no_sign unsigned).mp b).2.2.symm

/-! ## Digits of one width -/

theorem ofDigitChars_concat (ds : List Char) (d : Char) :
    Nat.ofDigitChars 10 (ds ++ [d]) 0 = 10 * Nat.ofDigitChars 10 ds 0 + (d.toNat - '0'.toNat) := by
  rw [Nat.ofDigitChars_append,Nat.ofDigitChars_cons,Nat.ofDigitChars_nil]

theorem digit_bounds {d : Char} (is : d.isDigit = true) : 48 ≤ d.toNat ∧ d.toNat ≤ 57 :=
  Char.isDigit_iff_toNat.mp is

/-- A number of so many digits is less than the power of ten. -/
theorem ofDigitChars_lt {ds : List Char} (are : ∀ d ∈ ds, d.isDigit = true) : Nat.ofDigitChars 10 ds 0 < 10 ^ ds.length := by
  induction ds using List.reverseRecOn with
  | nil => simp
  | append_singleton ds d ih =>
    have front := ih fun e member => are e (by simp [member])
    have last := digit_bounds (are d (by simp))
    have zero : '0'.toNat = 48 := rfl
    rw [ofDigitChars_concat,List.length_append,List.length_singleton,pow_succ]
    omega

/-- Digits are told by their number and how many there are. -/
theorem digits_unique {a b : List Char} (a_are : ∀ d ∈ a, d.isDigit = true) (b_are : ∀ d ∈ b, d.isDigit = true)
    (long : a.length = b.length) (same : Nat.ofDigitChars 10 a 0 = Nat.ofDigitChars 10 b 0) : a = b := by
  induction a using List.reverseRecOn generalizing b with
  | nil => exact (List.length_eq_zero_iff.mp long.symm).symm
  | append_singleton a c ih =>
    rcases List.eq_nil_or_concat b with rfl | ⟨b,d,rfl⟩
    · simp at long
    · rw [List.concat_eq_append] at b_are long same ⊢
      rw [ofDigitChars_concat,ofDigitChars_concat] at same
      have first := digit_bounds (a_are c (by simp))
      have second := digit_bounds (b_are d (by simp))
      have zero : '0'.toNat = 48 := rfl
      have last : c = d := Char.toNat_inj.mp (by omega)
      have front := ih (fun e member => a_are e (List.mem_append_left _ member)) (fun e member => b_are e (List.mem_append_left _ member))
        (by simpa using long) (by omega)
      rw [front,last]

/-! ## The last of a separator -/

theorem rsplitOnce_later {sep s l r : List Char} (rest : rsplitOnce sep s = some (l,r)) (c : Char) :
    rsplitOnce sep (c :: s) = some (c :: l,r) := by
  rw [rsplitOnce,rest]

theorem rsplitOnce_here {sep s : List Char} (rest : rsplitOnce sep s = none) (c : Char) :
    rsplitOnce sep (c :: s) = if sep.isPrefixOf (c :: s) then some ([],(c :: s).drop sep.length) else none := by
  rw [rsplitOnce,rest]

theorem rsplitOnce_eq_none {sep s : List Char} (some_sep : sep ≠ []) : rsplitOnce sep s = none ↔ ¬ sep <:+: s := by
  induction s with
  | nil => simp [rsplitOnce,some_sep]
  | cons c s ih =>
    rw [List.infix_cons_iff,not_or,← ih]
    cases rest : rsplitOnce sep s with
    | some parts =>
      rw [rsplitOnce_later rest]
      simp
    | none =>
      rw [rsplitOnce_here rest,ite_eq_right_iff,List.isPrefixOf_iff_prefix]
      simp

/-- A text splits at the last place the separator is found. -/
theorem rsplitOnce_eq_some {sep s l r : List Char} (some_sep : sep ≠ []) :
    rsplitOnce sep s = some (l,r) ↔ s = l ++ (sep ++ r) ∧ ¬ sep <:+: (sep ++ r).tail := by
  induction s generalizing l with
  | nil => simp [rsplitOnce,some_sep]
  | cons c s ih =>
    constructor
    · intro split
      cases rest : rsplitOnce sep s with
      | some parts =>
        rw [rsplitOnce_later rest] at split
        cases split
        obtain ⟨whole,last⟩ := ih.mp rest
        exact ⟨by rw [whole,List.cons_append],last⟩
      | none =>
        rw [rsplitOnce_here rest] at split
        split_ifs at split with here
        cases split
        have whole := List.prefix_iff_eq_append.mp (List.isPrefixOf_iff_prefix.mp here)
        rw [whole]
        exact ⟨rfl,(rsplitOnce_eq_none some_sep).mp rest⟩
    · rintro ⟨whole,last⟩
      cases l with
      | nil =>
        rw [List.nil_append] at whole
        rw [← whole,List.tail_cons] at last
        rw [rsplitOnce_here ((rsplitOnce_eq_none some_sep).mpr last),if_pos]
        · rw [whole,List.drop_left]
        · rw [whole,List.isPrefixOf_iff_prefix]
          exact List.prefix_append sep r
      | cons d l =>
        cases whole
        exact rsplitOnce_later (ih.mpr ⟨rfl,last⟩) c

end Maestro.Text
