import Mathlib.Data.List.Perm.Subperm
import Mathlib.Algebra.Order.BigOperators.Group.List
import Mathlib.Algebra.Order.Ring.Nat

/-!
# The shortest sufficient prefix

A list is taken from the front until what has been taken weighs enough. When
more weight is never worse, the greedy walk takes the shortest prefix that is
enough, and where it runs out no choice of elements at all would have been.
-/
namespace Maestro.Selection

variable {α M : Type*}

/-- What a list of elements weighs together. -/
def total [AddCommMonoid M] (weight : α → M) (xs : List α) : M := (xs.map weight).sum

section Total
variable [AddCommMonoid M] (weight : α → M)

@[simp] theorem total_nil : total weight ([] : List α) = 0 := rfl

@[simp] theorem total_cons (x : α) (xs : List α) : total weight (x :: xs) = weight x + total weight xs := by
  simp [total]

@[simp] theorem total_append (xs ys : List α) : total weight (xs ++ ys) = total weight xs + total weight ys := by
  simp [total]

theorem total_perm {xs ys : List α} (same : xs.Perm ys) : total weight xs = total weight ys :=
  (same.map weight).sum_eq

end Total

/-- The prefix the greedy walk takes when `acc` has been taken before it. -/
def shortest [AddCommMonoid M] (enough : M → Bool) (weight : α → M) : M → List α → List α
  | _, [] => []
  | acc, x :: xs => if enough acc then [] else x :: shortest enough weight (acc + weight x) xs

section Shortest
variable [AddCommMonoid M] (enough : M → Bool) (weight : α → M)

theorem shortest_initial (acc : M) (xs : List α) : shortest enough weight acc xs <+: xs := by
  induction xs generalizing acc with
  | nil => simp [shortest]
  | cons x xs ih =>
    unfold shortest
    split_ifs with done
    · exact List.nil_prefix
    · exact (List.prefix_cons_inj x).mpr (ih (acc + weight x))

theorem shortest_eq_take (acc : M) (xs : List α) :
    shortest enough weight acc xs = xs.take (shortest enough weight acc xs).length :=
  (List.prefix_iff_eq_take.mp (shortest_initial enough weight acc xs))

/-- No shorter prefix is enough. -/
theorem shortest_minimal (acc : M) (xs : List α) (j : Nat) (before : j < (shortest enough weight acc xs).length) :
    enough (acc + total weight (xs.take j)) = false := by
  induction xs generalizing acc j with
  | nil => simp [shortest] at before
  | cons x xs ih =>
    unfold shortest at before
    split_ifs at before with done
    · simp at before
    · cases j with
      | zero => simpa using done
      | succ j =>
        have later := ih (acc + weight x) j (by simpa using before)
        simpa [add_assoc] using later

/-- The walk stops at a sufficient prefix or takes everything. -/
theorem shortest_stops (acc : M) (xs : List α) :
    enough (acc + total weight (shortest enough weight acc xs)) = true ∨ shortest enough weight acc xs = xs := by
  induction xs generalizing acc with
  | nil => right; rfl
  | cons x xs ih =>
    unfold shortest
    split_ifs with done
    · left; simpa using done
    · rcases ih (acc + weight x) with reached | whole
      · left; simpa [add_assoc] using reached
      · right; rw [whole]

/-- The walk's prefix is the least sufficient one, where there is one. -/
theorem shortest_length_eq (acc : M) (xs : List α) (k : Nat) (within : k ≤ xs.length)
    (reached : enough (acc + total weight (xs.take k)) = true)
    (least : ∀ j < k, enough (acc + total weight (xs.take j)) = false) :
    shortest enough weight acc xs = xs.take k := by
  have taken := shortest_eq_take enough weight acc xs
  set n := (shortest enough weight acc xs).length with nIs
  have notLess : ¬ k < n := by
    intro less
    rw [shortest_minimal enough weight acc xs k less] at reached
    exact Bool.noConfusion reached
  have notMore : ¬ n < k := by
    intro more
    rcases shortest_stops enough weight acc xs with stopped | whole
    · rw [taken, least n more] at stopped
      exact Bool.noConfusion stopped
    · rw [whole] at nIs; omega
  rw [taken, show n = k by omega]

end Shortest

section Monotone
variable [AddCommMonoid M] [PartialOrder M] [IsOrderedAddMonoid M] [CanonicallyOrderedAdd M]
variable {enough : M → Bool} {weight : α → M}

theorem total_le_of_subperm (weight : α → M) {xs ys : List α} (sub : xs.Subperm ys) : total weight xs ≤ total weight ys := by
  obtain ⟨zs, perm, sublist⟩ := sub
  rw [← total_perm weight perm]
  exact (sublist.map weight).sum_le_sum (fun _ _ => zero_le)

/-- Where the whole walk is not enough, no choice from the list is. -/
theorem no_choice (monotone : ∀ a b, a ≤ b → enough a = true → enough b = true) {acc : M} {xs : List α}
    (short : enough (acc + total weight (shortest enough weight acc xs)) = false) (chosen : List α)
    (sub : chosen.Subperm xs) : enough (acc + total weight chosen) = false := by
  have whole : shortest enough weight acc xs = xs := by
    rcases shortest_stops enough weight acc xs with stopped | whole
    · rw [short] at stopped; exact Bool.noConfusion stopped
    · exact whole
  rw [whole] at short
  by_contra fits
  have more := monotone _ _ (add_le_add_right (total_le_of_subperm weight sub) acc)
    (by simpa using fits)
  rw [short] at more
  exact Bool.noConfusion more

/-- The walk ends sufficient exactly when some choice from the list is. -/
theorem shortest_enough_iff (weight : α → M) (monotone : ∀ a b, a ≤ b → enough a = true → enough b = true) (acc : M) (xs : List α) :
    enough (acc + total weight (shortest enough weight acc xs)) = true ↔
      ∃ chosen, chosen.Subperm xs ∧ enough (acc + total weight chosen) = true := by
  constructor
  · intro reached
    exact ⟨_, (shortest_initial enough weight acc xs).sublist.subperm, reached⟩
  · rintro ⟨chosen, sub, fits⟩
    by_contra short
    have none := no_choice monotone (by simpa using short) chosen sub
    rw [fits] at none
    exact Bool.noConfusion none

/-- An element is taken exactly when what is before it is not enough. -/
theorem lt_shortest_iff (weight : α → M) (monotone : ∀ a b, a ≤ b → enough a = true → enough b = true) (acc : M)
    (xs : List α) (k : Nat) : k < (shortest enough weight acc xs).length ↔
      k < xs.length ∧ enough (acc + total weight (xs.take k)) = false := by
  have initial := shortest_initial enough weight acc xs
  constructor
  · intro before
    exact ⟨Nat.lt_of_lt_of_le before initial.length_le, shortest_minimal enough weight acc xs k before⟩
  · rintro ⟨inside, short⟩
    by_contra beyond
    rcases shortest_stops enough weight acc xs with stopped | whole
    · have part : shortest enough weight acc xs <+: xs.take k :=
        List.prefix_take_iff.mpr ⟨initial, Nat.le_of_not_lt beyond⟩
      have more := monotone _ _ (add_le_add_right (total_le_of_subperm weight part.sublist.subperm) acc) stopped
      rw [short] at more
      exact Bool.noConfusion more
    · rw [whole] at beyond
      exact beyond inside

end Monotone

end Maestro.Selection
