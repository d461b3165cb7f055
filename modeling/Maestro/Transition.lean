import Mathlib.Data.List.Basic

/-!
# Systems that take one event after another

A system has a first state and a step that an event may or may not be able to
take. A run may be restricted to events that are allowed in the state they are
taken in; what is proved of a restricted run is proved for every order of its
events.
-/
namespace Maestro.Transition

structure System (σ ε : Type) where
  initial : σ
  step : σ → ε → Option σ

variable {σ ε : Type} (system : System σ ε) (allowed : σ → ε → Prop)

/-- The states of the runs whose every event is allowed where it is taken. -/
inductive Reaches : σ → Prop
  | start : Reaches system.initial
  | next {s s' : σ} {e : ε} (before : Reaches s) (may : allowed s e) (steps : system.step s e = some s') : Reaches s'

variable {system allowed}

/-- What holds at first and survives every allowed step holds throughout. -/
theorem Reaches.invariant {P : σ → Prop} (start : P system.initial)
    (next : ∀ s e s', Reaches system allowed s → P s → allowed s e → system.step s e = some s' → P s')
    {s : σ} (reached : Reaches system allowed s) : P s := by
  induction reached with
  | start => exact start
  | next before may steps ih => exact next _ _ _ before ih may steps

/-- A run that meets a stricter condition meets a weaker one. -/
theorem Reaches.mono {weaker : σ → ε → Prop} (weakens : ∀ s e, allowed s e → weaker s e) {s : σ}
    (reached : Reaches system allowed s) : Reaches system weaker s := by
  induction reached with
  | start => exact .start
  | next before may steps ih => exact .next ih (weakens _ _ may) steps

/-- The state after a list of events, if each could be taken and was
    permitted. -/
def System.run (system : System σ ε) (permits : σ → ε → Bool) : σ → List ε → Option σ
  | s, [] => some s
  | s, e :: es => if permits s e then (system.step s e).bind fun s' => system.run permits s' es else none

/-- Where a list of events leads, each allowed where it is taken, is reached. -/
theorem run_reaches {permits : σ → ε → Bool} (permitted : ∀ s e, permits s e = true → allowed s e) {es : List ε} {s s' : σ}
    (reached : Reaches system allowed s) (runs : system.run permits s es = some s') : Reaches system allowed s' := by
  induction es generalizing s with
  | nil =>
    cases runs
    exact reached
  | cons e es ih =>
    rw [System.run] at runs
    split_ifs at runs with may
    obtain ⟨next,steps,runs⟩ := Option.bind_eq_some_iff.mp runs
    exact ih (.next reached (permitted s e may) steps) runs

/-- A check that a run passes is passed by a state that is reached. -/
theorem exists_of_run {permits : σ → ε → Bool} (permitted : ∀ s e, permits s e = true → allowed s e) {es : List ε}
    {check : σ → Bool} (passes : (system.run permits system.initial es).any check = true) :
    ∃ s, Reaches system allowed s ∧ check s = true := by
  cases runs : system.run permits system.initial es with
  | none =>
    rw [runs] at passes
    cases passes
  | some s =>
    rw [runs] at passes
    exact ⟨s,run_reaches permitted .start runs,passes⟩

/-! ## A stretch of a run -/

/-- Events one after the other, with the state before each and after the last. -/
structure Stretch (system : System σ ε) where
  length : ℕ
  states : ℕ → σ
  events : ℕ → ε
  steps : ∀ i < length, system.step (states i) (events i) = some (states (i + 1))

/-- What holds at first and survives every event of a stretch holds throughout
    it. -/
theorem Stretch.invariant (stretch : Stretch system) {P : ℕ → Prop} (start : P 0)
    (next : ∀ i < stretch.length, P i → P (i + 1)) : ∀ i ≤ stretch.length, P i := by
  intro i
  induction i with
  | zero => exact fun _ => start
  | succ i ih =>
    intro within
    exact next i within (ih (Nat.le_of_lt within))

theorem run_append {permits : σ → ε → Bool} {s : σ} (es fs : List ε) :
    system.run permits s (es ++ fs) = (system.run permits s es).bind fun s' => system.run permits s' fs := by
  induction es generalizing s with
  | nil => rfl
  | cons e es ih =>
    rw [List.cons_append,System.run,System.run]
    split_ifs
    · cases system.step s e with
      | none => rfl
      | some s' => exact ih
    · rfl

/-- A run from a state, as a stretch. -/
def Stretch.ofRun (system : System σ ε) (s : σ) (es : List ε) (first : ε)
    (runs : ∀ i ≤ es.length, (system.run (fun _ _ => true) s (es.take i)).isSome) : Stretch system where
  length := es.length
  states i := (system.run (fun _ _ => true) s (es.take i)).getD s
  events i := es[i]?.getD first
  steps i less := by
    obtain ⟨before,here⟩ := Option.isSome_iff_exists.mp (runs i (Nat.le_of_lt less))
    obtain ⟨after,there⟩ := Option.isSome_iff_exists.mp (runs (i + 1) less)
    have next : es.take (i + 1) = es.take i ++ [es[i]] := by
      rw [List.take_add_one,List.getElem?_eq_getElem less]
      rfl
    have stepped : system.step before es[i] = some after := by
      rw [next,run_append,here] at there
      simpa [System.run] using there
    rw [here,there,List.getElem?_eq_getElem less]
    exact stepped

/-! ## A record of the run -/

section Recording
variable {γ : Type} {first : γ} {note : σ → ε → σ → γ → γ}

/-- The same system, writing down what each of its steps did. -/
def System.recording (system : System σ ε) (first : γ) (note : σ → ε → σ → γ → γ) : System (σ × γ) ε where
  initial := (system.initial, first)
  step := fun (s, record) e => (system.step s e).map fun s' => (s', note s e s' record)

/-- Every run has a record. -/
theorem Reaches.recorded {s : σ} (reached : Reaches system allowed s) :
    ∃ record, Reaches (system.recording first note) (fun both => allowed both.1) (s,record) := by
  induction reached with
  | start => exact ⟨first,.start⟩
  | @next s s' e before may steps ih =>
    obtain ⟨record,reached⟩ := ih
    have stepped : (system.recording first note).step (s,record) e = some (s',note s e s' record) := by
      simp [System.recording,steps]
    exact ⟨note s e s' record,.next reached may stepped⟩

/-- What is reached with a record is reached. -/
theorem Reaches.unrecorded {both : σ × γ} (reached : Reaches (system.recording first note) (fun both => allowed both.1) both) :
    Reaches system allowed both.1 := by
  induction reached with
  | start => exact .start
  | @next both after e before may steps ih =>
    obtain ⟨s',stepped,rfl⟩ := Option.map_eq_some_iff.mp steps
    exact .next ih may stepped

end Recording

end Maestro.Transition
