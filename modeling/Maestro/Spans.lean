import Mathlib.Data.Nat.Notation
import Mathlib.Algebra.BigOperators.Group.List.Basic
import Mathlib.Algebra.Order.Ring.Nat

/-!
# Counting through spans

Spans of any lengths lie one after the other. A position is found by taking away
the length of one span after another for as long as one is left whole; the
position after it is the next in the same span, or the first of the next.
-/
namespace Maestro.Spans

/-! ## Without end -/

/-- Spans that go on for ever, none of them empty. -/
structure Endless where
  length : ℕ → ℕ
  positive : ∀ k, 0 < length k

/-- The span a position is in, counted from the span `k`, and how far into it. -/
def Endless.locate (spans : Endless) (k rest : ℕ) : ℕ × ℕ :=
  if _within : rest < spans.length k then (k,rest) else spans.locate (k + 1) (rest - spans.length k)
termination_by rest
decreasing_by
  have := spans.positive k
  omega

section
variable (spans : Endless) {k rest : ℕ}

theorem Endless.locate_here (within : rest < spans.length k) : spans.locate k rest = (k,rest) := by
  rw [Endless.locate,dif_pos within]

theorem Endless.locate_beyond (beyond : spans.length k ≤ rest) :
    spans.locate k rest = spans.locate (k + 1) (rest - spans.length k) := by
  rw [Endless.locate,dif_neg (Nat.not_lt.mpr beyond)]

/-- The position after one that has another behind it in its span. -/
theorem Endless.locate_next (k rest : ℕ) (more : (spans.locate k rest).2 + 1 < spans.length (spans.locate k rest).1) :
    spans.locate k (rest + 1) = ((spans.locate k rest).1,(spans.locate k rest).2 + 1) := by
  induction rest using Nat.strongRecOn generalizing k with
  | ind rest ih =>
    by_cases within : rest < spans.length k
    · rw [spans.locate_here within] at more ⊢
      exact spans.locate_here more
    · have positive := spans.positive k
      have beyond := Nat.not_lt.mp within
      rw [spans.locate_beyond beyond] at more ⊢
      rw [spans.locate_beyond (by omega),Nat.sub_add_comm beyond]
      exact ih (rest - spans.length k) (by omega) (k + 1) more

/-- The position after the last of a span. -/
theorem Endless.locate_last (k rest : ℕ) (last : (spans.locate k rest).2 + 1 = spans.length (spans.locate k rest).1) :
    spans.locate k (rest + 1) = ((spans.locate k rest).1 + 1,0) := by
  induction rest using Nat.strongRecOn generalizing k with
  | ind rest ih =>
    have positive := spans.positive k
    by_cases within : rest < spans.length k
    · rw [spans.locate_here within] at last ⊢
      dsimp only at last ⊢
      rw [spans.locate_beyond (Nat.le_of_eq last.symm),last,Nat.sub_self]
      exact spans.locate_here (spans.positive (k + 1))
    · have beyond := Nat.not_lt.mp within
      rw [spans.locate_beyond beyond] at last ⊢
      rw [spans.locate_beyond (by omega),Nat.sub_add_comm beyond]
      exact ih (rest - spans.length k) (by omega) (k + 1) last

end

/-! ## As many as there are -/

/-- The span a position is in, counted from `k`, and how far into it; none
    behind the last span. -/
def locate : List ℕ → ℕ → ℕ → Option (ℕ × ℕ)
  | [], _, _ => none
  | length :: lengths, k, rest => if rest < length then some (k,rest) else locate lengths (k + 1) (rest - length)

/-- A position is found where as much lies in front of it. -/
theorem locate_eq_some {lengths : List ℕ} {k rest j into : ℕ} : locate lengths k rest = some (j,into) ↔
    k ≤ j ∧ ∃ length, lengths[j - k]? = some length ∧ into < length ∧ (lengths.take (j - k)).sum + into = rest := by
  induction lengths generalizing k rest with
  | nil => simp [locate]
  | cons length lengths ih =>
    rw [locate]
    by_cases within : rest < length
    · rw [if_pos within]
      constructor
      · intro here
        cases here
        exact ⟨Nat.le_refl _,length,by simp,within,by simp⟩
      · rintro ⟨le,found,is,inside,sum⟩
        obtain ⟨n,rfl⟩ := Nat.exists_eq_add_of_le le
        rw [Nat.add_sub_cancel_left] at is sum
        cases n with
        | zero => simpa using sum.symm
        | succ n =>
          rw [List.take_succ_cons,List.sum_cons] at sum
          omega
    · rw [if_neg within,ih]
      constructor
      · rintro ⟨le,found,is,inside,sum⟩
        obtain ⟨n,rfl⟩ := Nat.exists_eq_add_of_le le
        have shape : k + 1 + n - k = n + 1 := by omega
        rw [Nat.add_sub_cancel_left] at is sum
        refine ⟨by omega,found,?_,inside,?_⟩
        · rw [shape]
          exact is
        · rw [shape,List.take_succ_cons,List.sum_cons]
          omega
      · rintro ⟨le,found,is,inside,sum⟩
        obtain ⟨n,rfl⟩ := Nat.exists_eq_add_of_le le
        rw [Nat.add_sub_cancel_left] at is sum
        cases n with
        | zero =>
          cases is
          rw [List.take_zero,List.sum_nil] at sum
          omega
        | succ n =>
          have shape : k + (n + 1) - (k + 1) = n := by omega
          rw [List.take_succ_cons,List.sum_cons] at sum
          refine ⟨by omega,found,?_,inside,?_⟩
          · rw [shape]
            exact is
          · rw [shape]
            omega

end Maestro.Spans
