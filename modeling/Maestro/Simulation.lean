import Maestro.Transition
import Mathlib.Data.List.Forall2
import Mathlib.Data.List.Flatten

/-!
# One system explained by another

A specification says what each of its operations may do. A system is explained
by it through a view of its states: each step is seen as some operations, one
after the other, and perhaps as none. A whole run is then seen as the operations
of its steps, so that what every run of the specification keeps is kept by the
system.
-/
namespace Maestro.Transition

/-! ## Runs with their events -/

section Traces
variable {σ ε : Type} (system : System σ ε) (allowed : σ → ε → Prop)

/-- The events that lead from one state to another, each allowed where it is
    taken. -/
inductive Trace (s : σ) : List ε → σ → Prop
  | nil : Trace s [] s
  | snoc {es : List ε} {e : ε} {t u : σ} (before : Trace s es t) (may : allowed t e) (steps : system.step t e = some u) :
    Trace s (es ++ [e]) u

variable {system allowed} {s t u : σ} {es fs : List ε}

theorem Trace.reaches (trace : Trace system allowed s es t) (reached : Reaches system allowed s) : Reaches system allowed t := by
  induction trace with
  | nil => exact reached
  | snoc before may steps ih => exact .next ih may steps

theorem Trace.append (first : Trace system allowed s es t) (second : Trace system allowed t fs u) :
    Trace system allowed s (es ++ fs) u := by
  induction second with
  | nil =>
    rw [List.append_nil]
    exact first
  | snoc before may steps ih =>
    rw [← List.append_assoc]
    exact .snoc ih may steps

theorem Trace.single {e : ε} (may : allowed s e) (steps : system.step s e = some t) : Trace system allowed s [e] t :=
  .snoc .nil may steps

/-- Every state that is reached is reached by a run from the first. -/
theorem Reaches.trace (reached : Reaches system allowed s) : ∃ es, Trace system allowed system.initial es s := by
  induction reached with
  | start => exact ⟨[],.nil⟩
  | next before may steps ih =>
    obtain ⟨es,trace⟩ := ih
    exact ⟨_,.snoc trace may steps⟩

theorem Trace.mono {weaker : σ → ε → Prop} (weakens : ∀ s e, allowed s e → weaker s e) (trace : Trace system allowed s es t) :
    Trace system weaker s es t := by
  induction trace with
  | nil => exact .nil
  | snoc before may steps ih => exact .snoc ih (weakens _ _ may) steps

/-- Where a list of permitted events leads, as a run. -/
theorem trace_of_run {permits : σ → ε → Bool} (permitted : ∀ s e, permits s e = true → allowed s e)
    (runs : system.run permits s es = some t) : Trace system allowed s es t := by
  induction es generalizing s with
  | nil =>
    cases runs
    exact .nil
  | cons e es ih =>
    rw [System.run] at runs
    split_ifs at runs with may
    obtain ⟨next,steps,runs⟩ := Option.bind_eq_some_iff.mp runs
    exact (Trace.single (permitted s e may) steps).append (ih runs)

/-- The same steps from another state. -/
def System.startAt (system : System σ ε) (s : σ) : System σ ε := { system with initial := s }

theorem Trace.startAt (start : σ) (trace : Trace system allowed s es t) : Trace (system.startAt start) allowed s es t := by
  induction trace with
  | nil => exact .nil
  | snoc before may steps ih => exact .snoc ih may steps

/-- Where every state that is not at rest has a step that lowers its rank, a run
    of such steps leads to rest. -/
theorem leads_to_rest (rest : σ → Prop) (rank : σ → ℕ) {goes : σ → ε → Prop}
    (progress : ∀ s, Reaches system (fun _ _ => True) s → ¬ rest s → ∃ e s', goes s e ∧ system.step s e = some s' ∧ rank s' < rank s)
    (reached : Reaches system (fun _ _ => True) s) : ∃ es t, Trace system goes s es t ∧ rest t := by
  induction left : rank s using Nat.strongRecOn generalizing s with
  | ind left ih =>
    by_cases rests : rest s
    · exact ⟨[],s,.nil,rests⟩
    · obtain ⟨e,s',may,steps,lower⟩ := progress s reached rests
      obtain ⟨es,t,trace,rests⟩ := ih _ (left ▸ lower) (.next reached trivial steps) rfl
      exact ⟨[e] ++ es,t,(Trace.single may steps).append trace,rests⟩

end Traces

/-! ## A specification and its runs -/

/-- What each operation may make of a state. -/
abbrev Spec (τ δ : Type) := τ → δ → τ → Prop

section Specs
variable {τ δ : Type} (spec : Spec τ δ)

/-- The operations that lead from one state to another. -/
inductive Spec.Runs (a : τ) : List δ → τ → Prop
  | nil : Runs a [] a
  | snoc {ops : List δ} {op : δ} {b c : τ} (before : Runs a ops b) (may : spec b op c) : Runs a (ops ++ [op]) c

variable {spec} {a b c : τ} {ops more : List δ}

theorem Spec.Runs.append (first : spec.Runs a ops b) (second : spec.Runs b more c) : spec.Runs a (ops ++ more) c := by
  induction second with
  | nil =>
    rw [List.append_nil]
    exact first
  | snoc before may ih =>
    rw [← List.append_assoc]
    exact .snoc ih may

theorem Spec.Runs.one {op : δ} (may : spec a op b) : spec.Runs a [op] b := .snoc .nil may

/-- What every operation keeps is kept by a run of operations. -/
theorem Spec.Runs.keeps {P : τ → Prop} (runs : spec.Runs a ops b) (start : P a)
    (next : ∀ b op c, op ∈ ops → P b → spec b op c → P c) : P b := by
  induction runs with
  | nil => exact start
  | @snoc ops op b c before may ih =>
    have earlier : P b := ih fun b other c member => next b other c (List.mem_append_left _ member)
    exact next b op c (List.mem_append_right _ (List.mem_singleton_self _)) earlier may

end Specs

/-! ## Simulation -/

section Seeing
variable {σ ε τ δ : Type} (system : System σ ε) (spec : Spec τ δ) (view : σ → τ) (accounts : σ → ε → δ → Prop)

/-- A run and the operations that it is seen as, step by step: they lead from the
    view of the state before a step to the view of the state after it, and the
    event accounts for each of them in the state that it is taken in. -/
inductive Seen (s : σ) : List ε → List (List δ) → σ → Prop
  | nil : Seen s [] [] s
  | snoc {es : List ε} {told : List (List δ)} {e : ε} {ops : List δ} {t u : σ} (before : Seen s es told t)
      (steps : system.step t e = some u) (runs : spec.Runs (view t) ops (view u)) (accounted : ∀ op ∈ ops, accounts t e op) :
    Seen s (es ++ [e]) (told ++ [ops]) u

variable {system spec view accounts} {s t : σ} {es : List ε} {told : List (List δ)}

/-- Seen step by step, a run is one run of the specification. -/
theorem Seen.runs (seen : Seen system spec view accounts s es told t) : spec.Runs (view s) told.flatten (view t) := by
  induction seen with
  | nil => exact .nil
  | snoc before steps runs accounted ih =>
    rw [List.flatten_append,List.flatten_singleton]
    exact ih.append runs

/-- Each operation of a run is accounted for by one of its events. -/
theorem Seen.accounted (seen : Seen system spec view accounts s es told t) {op : δ} (member : op ∈ told.flatten) :
    ∃ before, ∃ e ∈ es, accounts before e op := by
  induction seen with
  | nil => cases member
  | snoc before steps runs accounted ih =>
    rw [List.flatten_append,List.flatten_singleton,List.mem_append] at member
    rcases member with earlier | last
    · obtain ⟨state,e,inside,accounts⟩ := ih earlier
      exact ⟨state,e,List.mem_append_left _ inside,accounts⟩
    · exact ⟨_,_,List.mem_append_right _ (List.mem_singleton_self _),accounted op last⟩

end Seeing

section Simulations
variable {σ ε τ δ : Type} (system : System σ ε) (allowed : σ → ε → Prop) (spec : Spec τ δ)

/-- Each step that is allowed from a state that is reached is seen as
    operations that the event accounts for. -/
structure Simulation where
  view : σ → τ
  accounts : σ → ε → δ → Prop
  step : ∀ s e s', Reaches system allowed s → allowed s e → system.step s e = some s' →
    ∃ ops, spec.Runs (view s) ops (view s') ∧ ∀ op ∈ ops, accounts s e op

variable {system allowed spec} (simulation : Simulation system allowed spec)
include simulation

/-- A run is seen as a run of the specification, step by step. -/
theorem Simulation.trace {s t : σ} {es : List ε} (reached : Reaches system allowed s) (trace : Trace system allowed s es t) :
    ∃ told, Seen system spec simulation.view simulation.accounts s es told t := by
  induction trace with
  | nil => exact ⟨[],.nil⟩
  | snoc before may steps ih =>
    obtain ⟨told,seen⟩ := ih
    obtain ⟨ops,more,accounted⟩ := simulation.step _ _ _ (before.reaches reached) may steps
    exact ⟨told ++ [ops],.snoc seen steps more accounted⟩

end Simulations
end Maestro.Transition
