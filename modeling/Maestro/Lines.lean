import Mathlib.Data.List.Basic

/-!
# Lines of a stream, and reading one within a bound

A line runs to its stop and carries it, and nothing after it. Reading takes a
line off the front of a stream, or what the bound and the stream's end leave of
one.
-/
namespace Maestro.Lines

variable {α : Type*} {stop : α}

/-- A line: no stop but the one it ends with. -/
def IsLine (stop : α) (line : List α) : Prop := ∃ body, stop ∉ body ∧ line = body ++ [stop]

section Cut
variable [DecidableEq α]

/-- The next line, or what `n` elements leave of it, and what follows. -/
def cut (stop : α) : ℕ → List α → List α × List α
  | 0, stream => ([],stream)
  | _ + 1, [] => ([],[])
  | n + 1, x :: stream =>
    if x = stop then ([x],stream)
    else
      let (line,rest) := cut stop n stream
      (x :: line,rest)

theorem cut_append (n : ℕ) (stream : List α) : (cut stop n stream).1 ++ (cut stop n stream).2 = stream := by
  induction n generalizing stream with
  | zero => rfl
  | succ n ih =>
    cases stream with
    | nil => rfl
    | cons x stream =>
      unfold cut
      split_ifs with stops
      · rfl
      · simp [ih]

theorem cut_length_le (n : ℕ) (stream : List α) : (cut stop n stream).1.length ≤ n := by
  induction n generalizing stream with
  | zero => exact Nat.le_refl _
  | succ n ih =>
    cases stream with
    | nil => exact Nat.zero_le _
    | cons x stream =>
      unfold cut
      split_ifs with stops
      · simp
      · simpa using ih stream

/-- What is read is a line, or it was cut off by the bound or by the end. -/
theorem cut_spec (n : ℕ) (stream : List α) : IsLine stop (cut stop n stream).1 ∨
    stop ∉ (cut stop n stream).1 ∧ ((cut stop n stream).1.length = n ∨ (cut stop n stream).2 = []) := by
  induction n generalizing stream with
  | zero => right; exact ⟨by simp [cut],.inl rfl⟩
  | succ n ih =>
    cases stream with
    | nil => right; exact ⟨by simp [cut],.inr rfl⟩
    | cons x stream =>
      unfold cut
      split_ifs with stops
      · left
        exact ⟨[],by simp,by simp [stops]⟩
      · rcases ih stream with ⟨body,plain,whole⟩ | ⟨plain,bounded | ended⟩
        · left
          refine ⟨x :: body,?_,by simp [whole]⟩
          simp [plain,Ne.symm stops]
        · right
          exact ⟨by simp [plain,Ne.symm stops],.inl (by simp [bounded])⟩
        · right
          exact ⟨by simp [plain,Ne.symm stops],.inr ended⟩

/-- Reading takes a line that fits. -/
theorem cut_line {line rest : List α} (is : IsLine stop line) {n : ℕ} (fits : line.length ≤ n) :
    cut stop n (line ++ rest) = (line,rest) := by
  obtain ⟨body,plain,rfl⟩ := is
  induction body generalizing n with
  | nil =>
    cases n with
    | zero => simp at fits
    | succ n => simp [cut]
  | cons x body ih =>
    cases n with
    | zero => simp at fits
    | succ n =>
      have other : x ≠ stop := fun same => plain (by simp [same])
      have later := ih (n := n) (fun member => plain (List.mem_cons_of_mem x member)) (by simpa using fits)
      simp only [List.cons_append] at later ⊢
      rw [cut,if_neg other,later]

/-- Of elements without a stop it takes as many as it may. -/
theorem cut_plain {n : ℕ} {stream : List α} (plain : stop ∉ stream.take n) :
    cut stop n stream = (stream.take n,stream.drop n) := by
  induction n generalizing stream with
  | zero => rfl
  | succ n ih =>
    cases stream with
    | nil => rfl
    | cons x stream =>
      rw [List.take_succ_cons,List.mem_cons,not_or] at plain
      rw [cut,if_neg (Ne.symm plain.1),ih plain.2]
      rfl

omit [DecidableEq α] in
/-- A line is taken in part without its stop. -/
theorem IsLine.take_plain {line rest : List α} (is : IsLine stop line) {n : ℕ} (short : n < line.length) :
    stop ∉ (line ++ rest).take n := by
  obtain ⟨body,plain,rfl⟩ := is
  rw [List.length_append,List.length_singleton] at short
  have part : (body ++ [stop] ++ rest).take n = body.take n := by
    rw [List.append_assoc,List.take_append_of_le_length (by omega)]
  rw [part]
  exact fun member => plain (List.mem_of_mem_take member)

end Cut

/-- A line is not empty. -/
theorem IsLine.ne_nil {line : List α} (is : IsLine stop line) : line ≠ [] := by
  obtain ⟨body,_,rfl⟩ := is
  simp

theorem IsLine.stop_mem {line : List α} (is : IsLine stop line) : stop ∈ line := by
  obtain ⟨body,_,rfl⟩ := is
  simp

/-- One stream begins with one line. -/
theorem IsLine.unique {a b x y : List α} (a_line : IsLine stop a) (b_line : IsLine stop b) (same : a ++ x = b ++ y) :
    a = b ∧ x = y := by
  obtain ⟨s,s_plain,rfl⟩ := a_line
  obtain ⟨t,t_plain,rfl⟩ := b_line
  induction s generalizing t with
  | nil =>
    cases t with
    | nil => simpa using same
    | cons c t =>
      simp only [List.nil_append,List.cons_append,List.cons.injEq] at same
      exact absurd (by simp [same.1]) t_plain
  | cons c s ih =>
    cases t with
    | nil =>
      simp only [List.nil_append,List.cons_append,List.cons.injEq] at same
      exact absurd (by simp [same.1]) s_plain
    | cons d t =>
      simp only [List.cons_append,List.cons.injEq] at same
      obtain ⟨rfl,rest⟩ := same
      obtain ⟨line,tail⟩ := ih (by simp_all) t (by simp_all) rest
      exact ⟨by simp_all,tail⟩

/-- A line that begins before the stream's plain part ends, ends after it. -/
theorem IsLine.outlasts {plain line x y : List α} (without : stop ∉ plain) (is : IsLine stop line)
    (same : plain ++ x = line ++ y) : plain.length < line.length := by
  by_contra short
  have inside : line <+: plain := List.prefix_of_prefix_length_le ⟨y,same.symm⟩ ⟨x,rfl⟩ (Nat.not_lt.mp short)
  exact without (inside.subset is.stop_mem)

/-! ## The lines before the first blank one -/

variable {blank : List α → Prop}

/-- A stream is lines that are not blank, then a blank one, then the rest. -/
structure Splits (stop : α) (blank : List α → Prop) (stream : List α) (lines : List (List α)) (last rest : List α) :
    Prop where
  whole : stream = lines.flatten ++ (last ++ rest)
  before : ∀ line ∈ lines, IsLine stop line ∧ ¬ blank line
  ends : IsLine stop last ∧ blank last

theorem Splits.cons {stream : List α} {lines : List (List α)} {last rest line : List α} (is : IsLine stop line)
    (filled : ¬ blank line) (later : Splits stop blank stream lines last rest) :
    Splits stop blank (line ++ stream) (line :: lines) last rest where
  whole := by rw [later.whole,List.flatten_cons,List.append_assoc]
  before := by
    intro one member
    rcases List.mem_cons.mp member with rfl | later_member
    · exact ⟨is,filled⟩
    · exact later.before one later_member
  ends := later.ends

/-- A stream whose first line is not blank splits after it, or not at all. -/
theorem Splits.tail {stream : List α} {lines : List (List α)} {last rest line : List α} (is : IsLine stop line)
    (filled : ¬ blank line) (splits : Splits stop blank (line ++ stream) lines last rest) :
    ∃ more, lines = line :: more ∧ Splits stop blank stream more last rest := by
  cases lines with
  | nil =>
    obtain ⟨same,_⟩ := is.unique splits.ends.1 splits.whole
    exact absurd (same ▸ splits.ends.2) filled
  | cons first more =>
    have here := splits.before first List.mem_cons_self
    have whole := splits.whole
    rw [List.flatten_cons,List.append_assoc] at whole
    obtain ⟨rfl,tail⟩ := is.unique here.1 whole
    exact ⟨more,rfl,tail,fun one member => splits.before one (List.mem_cons_of_mem _ member),splits.ends⟩

/-- A stream has one first blank line. -/
theorem Splits.unique {stream : List α} {lines lines' : List (List α)} {last last' rest rest' : List α}
    (a : Splits stop blank stream lines last rest) (b : Splits stop blank stream lines' last' rest') :
    lines = lines' ∧ last = last' ∧ rest = rest' := by
  induction lines generalizing stream lines' with
  | nil =>
    have whole : stream = last ++ rest := a.whole
    cases lines' with
    | nil =>
      obtain ⟨same,tail⟩ := a.ends.1.unique b.ends.1 (whole.symm.trans b.whole)
      exact ⟨rfl,same,tail⟩
    | cons first more =>
      have here := b.before first List.mem_cons_self
      have other := b.whole
      rw [List.flatten_cons,List.append_assoc] at other
      obtain ⟨same,_⟩ := a.ends.1.unique here.1 (whole.symm.trans other)
      exact absurd (same ▸ a.ends.2) here.2
  | cons first more ih =>
    have here := a.before first List.mem_cons_self
    have whole := a.whole
    rw [List.flatten_cons,List.append_assoc] at whole
    have remaining : Splits stop blank (more.flatten ++ (last ++ rest)) more last rest :=
      ⟨rfl,fun one member => a.before one (List.mem_cons_of_mem _ member),a.ends⟩
    rw [whole] at b
    obtain ⟨more',rfl,later⟩ := b.tail here.1 here.2
    obtain ⟨rfl,same⟩ := ih remaining later
    exact ⟨rfl,same⟩

theorem Splits.drop {stream : List α} {head lines : List (List α)} {last rest : List α}
    (filled : ∀ line ∈ head, IsLine stop line ∧ ¬ blank line)
    (splits : Splits stop blank (head.flatten ++ stream) lines last rest) :
    ∃ more, lines = head ++ more ∧ Splits stop blank stream more last rest := by
  induction head generalizing lines with
  | nil => exact ⟨lines,rfl,splits⟩
  | cons first head ih =>
    have here := filled first List.mem_cons_self
    rw [List.flatten_cons,List.append_assoc] at splits
    obtain ⟨more,rfl,later⟩ := splits.tail here.1 here.2
    obtain ⟨more',rfl,last⟩ := ih (fun line member => filled line (List.mem_cons_of_mem _ member)) later
    exact ⟨more',rfl,last⟩

/-- The first blank line ends after any part of the stream without a stop. -/
theorem Splits.outlasts {plain x : List α} {lines : List (List α)} {last rest : List α} (without : stop ∉ plain)
    (splits : Splits stop blank (plain ++ x) lines last rest) : plain.length < (lines.flatten ++ last).length := by
  have whole := splits.whole
  cases lines with
  | nil => exact splits.ends.1.outlasts without whole
  | cons first more =>
    rw [List.flatten_cons,List.append_assoc] at whole
    have longer := (splits.before first List.mem_cons_self).1.outlasts without whole
    simp only [List.flatten_cons,List.length_append]
    omega

end Maestro.Lines
