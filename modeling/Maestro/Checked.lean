import Mathlib.Algebra.BigOperators.Group.List.Basic
import Mathlib.Algebra.Order.BigOperators.Group.List
import Mathlib.Algebra.Order.Ring.Nat

/-!
# Unsigned arithmetic of a fixed width that panics outside its range

A number of `w` bits is a `Nat`, and an operation whose exact result needs
more bits, or is negative, yields `none`: the panic of a build with overflow
checks. Each operation is the exact one where it returns.
-/
namespace Maestro.Checked

/-- Addition of two numbers of `w` bits. -/
def add (w a b : Nat) : Option Nat := if a + b < 2 ^ w then some (a + b) else none

/-- Subtraction, which has no result below zero. -/
def sub (a b : Nat) : Option Nat := if b ≤ a then some (a - b) else none

/-- Multiplication of two numbers of `w` bits. -/
def mul (w a b : Nat) : Option Nat := if a * b < 2 ^ w then some (a * b) else none

/-- The running sum of a list, each partial sum of `w` bits. -/
def sum (w : Nat) (xs : List Nat) : Option Nat := xs.foldlM (add w) 0

theorem add_eq_some {w a b c : Nat} : add w a b = some c ↔ a + b < 2 ^ w ∧ a + b = c := by
  unfold add
  split_ifs with fits <;> simp [fits]

theorem add_of_lt {w a b : Nat} (fits : a + b < 2 ^ w) : add w a b = some (a + b) := by
  simp [add, fits]

theorem add_of_ge {w a b : Nat} (exceeds : ¬ a + b < 2 ^ w) : add w a b = none := by
  simp [add, exceeds]

theorem sub_of_le {a b : Nat} (below : b ≤ a) : sub a b = some (a - b) := by
  simp [sub, below]

theorem sub_of_gt {a b : Nat} (above : ¬ b ≤ a) : sub a b = none := by
  simp [sub, above]

theorem mul_of_lt {w a b : Nat} (fits : a * b < 2 ^ w) : mul w a b = some (a * b) := by
  simp [mul, fits]

/-- Partial sums grow, so the fold stays in range when its last sum does. -/
theorem foldlM_add (w : Nat) (xs : List Nat) (acc : Nat) (start : acc < 2 ^ w) :
    xs.foldlM (add w) acc = if acc + xs.sum < 2 ^ w then some (acc + xs.sum) else none := by
  induction xs generalizing acc with
  | nil => simp [start]
  | cons x xs ih =>
    have regrouped : acc + (x :: xs).sum = acc + x + xs.sum := by rw [List.sum_cons, Nat.add_assoc]
    rw [List.foldlM_cons, regrouped]
    by_cases step : acc + x < 2 ^ w
    · rw [add_of_lt step]
      exact ih (acc + x) step
    · have exceeds : ¬ acc + x + xs.sum < 2 ^ w := by omega
      simp [add_of_ge step, exceeds]

theorem sum_eq (w : Nat) (xs : List Nat) : sum w xs = if xs.sum < 2 ^ w then some xs.sum else none := by
  have whole := foldlM_add w xs 0 (Nat.two_pow_pos w)
  simpa [sum] using whole

theorem sum_of_lt {w : Nat} {xs : List Nat} (fits : xs.sum < 2 ^ w) : sum w xs = some xs.sum := by
  simp [sum_eq, fits]

theorem sum_of_ge {w : Nat} {xs : List Nat} (exceeds : ¬ xs.sum < 2 ^ w) : sum w xs = none := by
  simp [sum_eq, exceeds]

/-- A sum of computed terms stays in range when the whole does. -/
theorem foldlM_terms {α : Type} {w : Nat} {cost : α → Option Nat} {term : α → Nat} {xs : List α}
    (costs : ∀ x ∈ xs, cost x = if term x < 2 ^ w then some (term x) else none) {acc : Nat} (start : acc < 2 ^ w) :
    xs.foldlM (fun acc x => do add w acc (← cost x)) acc =
      if acc + (xs.map term).sum < 2 ^ w then some (acc + (xs.map term).sum) else none := by
  induction xs generalizing acc with
  | nil => simp [start]
  | cons x xs ih =>
    have rest := fun y inside => costs y (List.mem_cons_of_mem x inside)
    have regrouped : acc + ((x :: xs).map term).sum = acc + term x + (xs.map term).sum := by
      rw [List.map_cons, List.sum_cons, Nat.add_assoc]
    rw [List.foldlM_cons, regrouped, costs x List.mem_cons_self]
    by_cases fits : term x < 2 ^ w
    · rw [if_pos fits]
      by_cases step : acc + term x < 2 ^ w
      · show (add w acc (term x)).bind _ = _
        rw [add_of_lt step]
        exact ih rest step
      · have exceeds : ¬ acc + term x + (xs.map term).sum < 2 ^ w := by omega
        show (add w acc (term x)).bind _ = _
        rw [add_of_ge step, if_neg exceeds]
        rfl
    · have exceeds : ¬ acc + term x + (xs.map term).sum < 2 ^ w := by omega
      rw [if_neg fits, if_neg exceeds]
      rfl

theorem mul_eq_some {w a b c : Nat} : mul w a b = some c ↔ a * b < 2 ^ w ∧ a * b = c := by
  unfold mul
  split_ifs with fits <;> simp [fits]

/-- A sum of computed terms that is returned is the sum of the terms. -/
theorem foldlM_exact {α : Type} {w : Nat} {cost : α → Option Nat} {term : α → Nat} {xs : List α}
    (costs : ∀ x c, cost x = some c → c = term x) {acc total : Nat}
    (is : xs.foldlM (fun acc x => do add w acc (← cost x)) acc = some total) : total = acc + (xs.map term).sum := by
  induction xs generalizing acc with
  | nil => exact (Option.some.inj is).symm
  | cons x xs ih =>
    rw [List.foldlM_cons] at is
    obtain ⟨next,added,is⟩ := Option.bind_eq_some_iff.mp is
    obtain ⟨c,cost_is,added⟩ := Option.bind_eq_some_iff.mp added
    obtain ⟨_,rfl⟩ := add_eq_some.mp added
    rw [ih is,costs x c cost_is,List.map_cons,List.sum_cons,Nat.add_assoc]

theorem mul_of_ge {w a b : Nat} (exceeds : ¬ a * b < 2 ^ w) : mul w a b = none := by
  simp [mul, exceeds]

end Maestro.Checked
