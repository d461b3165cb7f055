import Mathlib.Logic.Relation
import Mathlib.Order.RelClasses

/-!
# One lock order, so no cycle

A thread that wants a lock waits for the one that holds it. Where every thread
wants only locks that come after those it holds, no thread waits, however
indirectly, for itself.
-/
namespace Maestro.LockOrder

variable {T L : Type} (holder : L → Option T) (wants : T → Option L)

def Waits (t u : T) : Prop := ∃ l, wants t = some l ∧ holder l = some u

/-- Each lock a thread holds comes before the one it wants. -/
def Ordered (before : L → L → Prop) : Prop := ∀ t held wanted, holder held = some t → wants t = some wanted → before held wanted

variable {holder wants} {before : L → L → Prop}

/-- Along a chain of threads that wait for one another the locks climb. -/
theorem climbs_along [IsStrictOrder L before] (ordered : Ordered holder wants before) {t u : T}
    (chain : Relation.TransGen (Waits holder wants) t u) :
    ∃ wanted held, wants t = some wanted ∧ holder held = some u ∧ (wanted = held ∨ before wanted held) := by
  induction chain with
  | single waits =>
    obtain ⟨l,wanted,held⟩ := waits
    exact ⟨l,l,wanted,held,.inl rfl⟩
  | tail _ waits ih =>
    obtain ⟨wanted,middle,first,held,climbs⟩ := ih
    obtain ⟨last,wants_last,holds_last⟩ := waits
    have up : before middle last := ordered _ middle last held wants_last
    refine ⟨wanted,last,first,holds_last,.inr ?_⟩
    rcases climbs with rfl | climbs
    · exact up
    · exact Trans.trans climbs up

theorem no_cycle [IsStrictOrder L before] (ordered : Ordered holder wants before) (t : T) :
    ¬ Relation.TransGen (Waits holder wants) t t := by
  intro cycle
  obtain ⟨wanted,held,wants_it,holds_it,climbs⟩ := climbs_along ordered cycle
  have up : before held wanted := ordered t held wanted holds_it wants_it
  rcases climbs with rfl | climbs
  · exact irrefl _ up
  · exact irrefl _ (Trans.trans climbs up : before wanted wanted)

end Maestro.LockOrder
