import Mathlib.Algebra.BigOperators.Pi
import Mathlib.Algebra.Order.BigOperators.Group.Finset
import Mathlib.Data.Fintype.BigOperators

/-!
# How many references the parties of a system hold

Each of finitely many parties is in a state of its own, and a state holds a
number of references to each resource. What all of them hold changes by what the
one that moves takes or gives back.
-/
namespace Maestro.Holders

variable {ι J R : Type} [Fintype ι] (holds : J → R → ℕ)

/-- The references that all parties together hold to one resource. -/
def held (states : ι → J) (r : R) : ℕ := ∑ i, holds (states i) r

variable {states : ι → J} {r : R}

/-- One party moves and the others hold what they held. -/
theorem held_update [DecidableEq ι] (states : ι → J) (i : ι) (j : J) (r : R) :
    held holds (Function.update states i j) r + holds (states i) r = held holds states r + holds j r := by
  have apart (f : ι → ℕ) : ∑ k, f k = f i + ∑ k ∈ Finset.univ.erase i, f k := (Finset.add_sum_erase _ f (Finset.mem_univ i)).symm
  have others : ∑ k ∈ Finset.univ.erase i, holds (Function.update states i j k) r =
      ∑ k ∈ Finset.univ.erase i, holds (states k) r := by
    refine Finset.sum_congr rfl fun k other => ?_
    rw [Function.update_of_ne (Finset.ne_of_mem_erase other)]
  rw [held,held,apart fun k => holds (Function.update states i j k) r,apart fun k => holds (states k) r,others,
    Function.update_self]
  omega

theorem le_held (states : ι → J) (i : ι) (r : R) : holds (states i) r ≤ held holds states r :=
  Finset.single_le_sum (f := fun k => holds (states k) r) (fun _ _ => Nat.zero_le _) (Finset.mem_univ i)

/-- Two parties hold no more than all do together. -/
theorem add_le_held (states : ι → J) {i j : ι} (different : i ≠ j) (r : R) :
    holds (states i) r + holds (states j) r ≤ held holds states r := by
  classical
  rw [← Finset.sum_pair (f := fun k => holds (states k) r) different,held]
  exact Finset.sum_le_sum_of_subset (Finset.subset_univ _)

variable {holds}

theorem held_eq_zero_iff : held holds states r = 0 ↔ ∀ i, holds (states i) r = 0 := by
  simp [held]

end Maestro.Holders
