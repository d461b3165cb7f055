import Maestro.HandedOut
import Maestro.LockOrder

/-!
# The locks of the router

The admission lock is taken before any slot's lock, and a thread holds one
slot's lock at a time, for one step. Under it no process is ended but one that
has exited already.
-/
namespace Maestro.Threads
open Slots (Loaded Slot Table Liveness)

inductive Lock
  | Admission
  | Slot (id : String)
deriving DecidableEq, Repr

/-- The order in which one thread takes them. -/
inductive Lock.Before : Lock → Lock → Prop
  | Slot (id : String) : Before .Admission (.Slot id)

instance : IsStrictOrder Lock Lock.Before where
  irrefl _ before := by cases before
  trans _ _ _ first second := by cases first; cases second

section
variable {Tid : Type} (state : State Tid)

/-- A slot's lock is held only for the step that needs it. -/
def Guarded : Prop := ∀ id t, state.guards id = some t → (state.jobs t).needs = some id

/-- Who holds a lock. -/
def State.holder : Lock → Option Tid
  | .Admission => state.shared.admission
  | .Slot id => state.guards id

variable [DecidableEq Tid]

/-- The lock a thread has yet to take before its next step. -/
def State.wants (t : Tid) : Option Lock :=
  match (state.jobs t).needs with
  | some id => if state.guards id = some t then none else some (.Slot id)
  | none => match state.jobs t with
    | .Queued _ => some .Admission
    | _ => none

/-- One thread waits for another's lock. -/
def State.Waits : Tid → Tid → Prop := LockOrder.Waits state.holder state.wants

end

/-! ## Who holds the lock of a slot -/

section Guards
variable {Tid : Type} {config : Config} {state before after : State Tid} {event : Event Tid} {t : Tid} {input : Input}

theorem Guarded.single (guarded : Guarded state) {id other : String} (first : state.guards id = some t)
    (second : state.guards other = some t) : id = other := by
  have needs := guarded id t first
  rw [guarded other t second] at needs
  exact (Option.some.inj needs).symm

theorem Guarded.queued (guarded : Guarded state) {request : Request} (queued : state.jobs t = .Queued request) (id : String) :
    state.guards id ≠ some t := by
  intro held
  have needs := guarded id t held
  rw [queued] at needs
  cases needs

variable [DecidableEq Tid]

/-- A thread that needs no slot's lock takes its step; one that does takes the
    lock, or takes its step under it and releases it. -/
theorem act_cases (acts : before.act config t input = some after) :
    ((before.jobs t).needs = none ∧ before.advance config t input = some after) ∨
    (∃ id, (before.jobs t).needs = some id ∧ before.guards id = none ∧
      after = { before with guards := Function.update before.guards id (some t) }) ∨
    ∃ id advanced, (before.jobs t).needs = some id ∧ before.guards id = some t ∧
      before.advance config t input = some advanced ∧
      after = { advanced with guards := Function.update advanced.guards id none } := by
  rw [State.act] at acts
  split at acts
  · rename_i free
    exact .inl ⟨free,acts⟩
  · rename_i id needs
    split at acts
    · rename_i unheld
      cases acts
      exact .inr (.inl ⟨id,needs,unheld,rfl⟩)
    · rename_i owner held
      split_ifs at acts with own
      obtain ⟨advanced,advances,rfl⟩ := Option.map_eq_some_iff.mp acts
      subst own
      exact .inr (.inr ⟨id,advanced,needs,held,advances,rfl⟩)

/-- A step of a thread is its own: the other threads go on with what they were
    doing, and no lock of a slot changes hands. -/
theorem advance_cases (advances : before.advance config t input = some after) :
    ∃ job, (before.jobs t).step config input before.shared t = some (after.shared,job) ∧
      after.jobs = Function.update before.jobs t job ∧ after.guards = before.guards := by
  obtain ⟨⟨shared,job⟩,ran,rfl⟩ := Option.map_eq_some_iff.mp advances
  exact ⟨job,ran,rfl,rfl⟩

theorem Guarded.act (guarded : Guarded before) (acts : before.act config t input = some after) : Guarded after := by
  intro id u held
  rcases act_cases acts with ⟨free,advances⟩ | ⟨needed,needs,_,rfl⟩ | ⟨needed,advanced,needs,own,advances,rfl⟩
  · obtain ⟨job,_,jobs,guards⟩ := advance_cases advances
    rw [guards] at held
    -- Whoever holds a slot's lock needs it, so it is not the thread that moved.
    have other : u ≠ t := by
      rintro rfl
      rw [guarded id u held] at free
      cases free
    rw [jobs,Function.update_of_ne other]
    exact guarded id u held
  · change Function.update before.guards needed (some t) id = some u at held
    by_cases this : id = needed
    · subst this
      rw [Function.update_self] at held
      cases held
      exact needs
    · rw [Function.update_of_ne this] at held
      exact guarded id u held
  · obtain ⟨job,_,jobs,guards⟩ := advance_cases advances
    change Function.update advanced.guards needed none id = some u at held
    by_cases this : id = needed
    · subst this
      rw [Function.update_self] at held
      cases held
    · rw [Function.update_of_ne this,guards] at held
      have other : u ≠ t := by
        rintro rfl
        rw [guarded id u held] at needs
        exact this (Option.some.inj needs)
      change (advanced.jobs u).needs = some id
      rw [jobs,Function.update_of_ne other]
      exact guarded id u held

theorem Guarded.step (guarded : Guarded before) (steps : before.step config event = some after) : Guarded after := by
  cases event with
  | Tick =>
    cases steps
    exact guarded
  | Dies child status =>
    simp only [State.step] at steps
    split_ifs at steps
    cases steps
    exact guarded
  | Act t input => exact guarded.act steps

variable {allowed : State Tid → Event Tid → Prop}

theorem guarded (reached : Transition.Reaches (router config Tid) allowed state) : Guarded state :=
  Transition.Reaches.invariant (fun _ _ held => (by cases held)) (fun _ _ _ _ guarded _ steps => guarded.step steps) reached

theorem wants_cases {lock : Lock} (wants : state.wants t = some lock) :
    (∃ id, lock = .Slot id ∧ (state.jobs t).needs = some id ∧ state.guards id ≠ some t) ∨
    ∃ request, lock = .Admission ∧ state.jobs t = .Queued request := by
  rw [State.wants] at wants
  split at wants
  · rename_i id needs
    split_ifs at wants with own
    cases wants
    exact .inl ⟨id,rfl,needs,own⟩
  · split at wants
    · rename_i request queued
      cases wants
      exact .inr ⟨request,rfl,queued⟩
    · cases wants

end Guards

/-! ## Who holds the admission lock -/

section Order
variable {Tid : Type} [DecidableEq Tid] {config : Config} {state before after : State Tid} {event : Event Tid}
  {allowed : State Tid → Event Tid → Prop}

/-- Whoever holds the admission lock is admitting. -/
def Admits (state : State Tid) : Prop := ∀ t, state.shared.admission = some t → (state.jobs t).admits = true

theorem Admits.step (admits : Admits before) (steps : before.step config event = some after) : Admits after := by
  intro u held
  rcases step_cases steps with ⟨clock,shared,jobs⟩ | ⟨child,status,_,jobs,shared⟩ | ⟨t,input,job,_,ran,jobs⟩
  · rw [shared] at held
    rw [jobs]
    exact admits u held
  · rw [shared] at held
    rw [jobs]
    exact admits u held
  rw [jobs]
  cases step_lock ran with
  | Keeps same still =>
    rw [same] at held
    by_cases this : u = t
    · subst this
      rw [Function.update_self,still]
      exact admits u held
    · rw [Function.update_of_ne this]
      exact admits u held
  | Takes request _ taken _ rechecks =>
    rw [taken] at held
    cases held
    rw [Function.update_self,rechecks]
    rfl
  | Releases _ released =>
    rw [released] at held
    cases held

theorem admits (reached : Transition.Reaches (router config Tid) allowed state) : Admits state :=
  Transition.Reaches.invariant (fun _ held => (by cases held)) (fun _ _ _ _ admits _ steps => admits.step steps) reached

/-- Each thread takes its locks in the one order there is. -/
theorem ordered (guarded : Guarded state) (admits : Admits state) : LockOrder.Ordered state.holder state.wants Lock.Before := by
  intro t held wanted holds wants
  rcases wants_cases wants with ⟨id,rfl,needs,unheld⟩ | ⟨request,rfl,queued⟩
  · cases held with
    | Admission => exact .Slot id
    | Slot other =>
      -- It would hold the very lock it has yet to take.
      have same := guarded other t holds
      rw [needs] at same
      cases same
      exact absurd holds unheld
  · cases held with
    | Admission =>
      have admitting := admits t holds
      rw [queued] at admitting
      cases admitting
    | Slot other => exact absurd holds (guarded.queued queued other)

end Order

/-! ## What is ended under the lock of a slot -/

section Endings
variable {Tid : Type} {config : Config} {input : Input} {s s' : Shared Tid} {job : Job} {t : Tid} {child : Child}

/-- The step drops the last reference to a child. -/
def Drops (s s' : Shared Tid) (child : Child) : Prop := 0 < s.strong child ∧ s'.strong child = 0

theorem Drops.irrefl_of (same : s'.strong = s.strong) : ¬ Drops s s' child := by
  rintro ⟨there,gone⟩
  rw [same] at gone
  omega

/-- Looking for a live child drops none but a dead one. -/
theorem running_drops {id : String} {found : Option Child} (ran : s.running id = (found,s')) (drops : Drops s s' child) :
    ∃ status, s.check child = .Exited status := by
  obtain ⟨there,gone⟩ := drops
  rw [Shared.running] at ran
  rcases Slots.liveChild_cases s.strong s.check s.clock (s.slots id) with
    ⟨empty,is⟩ | ⟨held,status,at_id,alone,dead,is⟩ | ⟨held,at_id,_,is⟩ <;> rw [is] at ran <;> cases ran
  · rw [empty] at gone
    change s.strong child = 0 at gone
    omega
  · rw [at_id] at gone
    change (s.release held.child).strong child = 0 at gone
    rw [release_strong] at gone
    have same : held.child = child := by
      by_contra different
      rw [one_ne different] at gone
      omega
    rw [← same]
    exact ⟨status,dead⟩
  · change (s.clone held.child).strong child = 0 at gone
    rw [clone_strong] at gone
    omega

/-- A step under the lock of a slot ends no child that has not exited. -/
theorem guarded_drops {id : String} (needs : job.needs = some id) (ready : Ready s job) {job' : Job}
    (steps : job.step config input s t = some (s',job')) (drops : Drops s s' child) :
    ∃ status, s.check child = .Exited status := by
  cases step_branch steps with
  | finds _ _ _ _ ran => exact running_drops ran drops
  | misses _ _ _ ran => exact running_drops ran drops
  | admits _ request phase _ _ branch =>
    cases branch with
    | finds _ _ _ ran => exact running_drops ran drops
    | misses _ _ ran => exact running_drops ran drops
    | weighs | takes | blocked | skips => exact absurd drops (Drops.irrefl_of rfl)
    | places _ loaded =>
      -- What is overwritten is an empty slot.
      obtain ⟨empty,_⟩ := ready request loaded rfl
      obtain ⟨there,gone⟩ := drops
      rw [place_strong empty,clone_strong] at gone
      omega
    | _ => cases needs
  | touches | buries | unloads | passes | looks | clears | reads | holds => exact absurd drops (Drops.irrefl_of rfl)
  | _ => cases needs

end Endings

/-! ## The discipline -/

section Discipline
variable {Tid : Type} [DecidableEq Tid] {config : Config}

/-- Whatever the order of the steps: a thread holds one slot's lock at most, it
    holds none while it waits for the admission lock, no threads wait for one
    another in a circle, and a thread that holds a slot's lock drops the last
    reference only to a child that has exited. -/
theorem lock_discipline {state : State Tid} (reached : Transition.Reaches (router config Tid) (fun _ _ => True) state) :
    (∀ t id other, state.guards id = some t → state.guards other = some t → id = other) ∧
    (∀ t id, state.wants t = some .Admission → state.guards id ≠ some t) ∧
    (∀ t, ¬ Relation.TransGen state.Waits t t) ∧
    ∀ t id, state.guards id = some t → ∀ input after, (router config Tid).step state (.Act t input) = some after →
      ∀ child, Drops state.shared after.shared child → ∃ status, state.shared.check child = .Exited status := by
  have guarded := guarded reached
  refine ⟨fun t id other => guarded.single,fun t id wants => ?_,?_,fun t id held input after steps child drops => ?_⟩
  · rcases wants_cases wants with ⟨other,is,_⟩ | ⟨request,_,queued⟩
    · cases is
    · exact guarded.queued queued id
  · exact LockOrder.no_cycle (ordered guarded (admits reached))
  · have needs := guarded id t held
    rcases act_cases steps with ⟨free,_⟩ | ⟨needed,_,unheld,rfl⟩ | ⟨needed,advanced,_,_,advances,rfl⟩
    · rw [needs] at free
      cases free
    · exact absurd drops (Drops.irrefl_of rfl)
    · obtain ⟨job,ran,_⟩ := advance_cases advances
      exact guarded_drops needs ((oneAtATime reached).ready t) ran drops

end Discipline

/-- A listing has the lock of the slot that an admission is about to weigh. -/
theorem admission_waits_for_listing : ∃ state, Transition.Reaches (router oneModel Bool) (fun _ _ => True) state ∧
    state.Waits false true ∧ ¬ Relation.TransGen state.Waits false false ∧
    ∀ id, state.guards id = some true → id = "m" := by
  have passes : ((router oneModel Bool).run (fun _ _ => true) (State.start Bool)
      ((spawning false).take 8 ++ [.List,.Go].map (.Act true))).any (fun state =>
        state.wants false = some (.Slot "m") ∧ state.guards "m" = some true) = true := by
    decide +kernel
  obtain ⟨state,reached,checked⟩ := Transition.exists_of_run (fun _ _ _ => trivial) passes
  obtain ⟨wants,held⟩ := of_decide_eq_true checked
  obtain ⟨single,_,no_cycle,_⟩ := lock_discipline reached
  exact ⟨state,reached,⟨.Slot "m",wants,held⟩,no_cycle false,fun id other => single true id "m" other held⟩

end Maestro.Threads
