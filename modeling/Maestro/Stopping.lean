import Maestro.FreedRoom

/-!
# What a stop leaves behind

A stop empties the slots one after another, drops what it took, and returns. It
waits neither for the admission lock nor for a thread that holds a child: an
admission that was loading one puts it in a slot that the stop has emptied.
-/
namespace Maestro.Threads
open Slots (Loaded Slot Table)

/-- The stop a thread is in, by how many processes had been started when it was
    called. -/
def Job.call : Job → Option ℕ
  | .Clearing called _ _ | .Stopping called _ | .Signalled called => some called
  | _ => none

/-- The slots a stop has still to empty. -/
def Job.left : Job → List String
  | .Clearing _ rest _ => rest
  | _ => []

/-- No admission puts a child in a slot that has been emptied by a stop called
    after the child was started. Where a stop returns, a child that was started
    before it was called is held by relays alone; a sweep that has found it
    exited may still have to drop it. -/
def Timely {Tid : Type} (state : State Tid) : Event Tid → Prop
  | .Act t _ => match state.jobs t with
    | .Admitting request (.Placing loaded) => state.shared.cleared request.entry.id ≤ loaded.child.pid
    | .Signalled called => ∀ u, ∀ c ∈ (state.jobs u).holds, c.pid < called →
      (state.jobs u).relayed = some c ∨ (state.jobs u).mourns = some c
    | _ => True
  | _ => True

/-- Of what was started before a stop was called that has returned, all has been
    reaped but what a relay holds, and none is in a slot. -/
structure Stopped {Tid : Type} (state : State Tid) : Prop where
  ended : ∀ c, state.shared.life c ≠ .Unborn → c.pid < state.shared.returned →
    (state.shared.life c).isReaped = true ∨ ∃ t, (state.jobs t).relayed = some c
  unplaced : ∀ id held, state.shared.slots id = some held → state.shared.returned ≤ held.child.pid

/-! ## What a step records of the stops -/

section Steps
variable {Tid : Type} {config : Config} {input : Input} {s s' : Shared Tid} {job job' : Job} {t : Tid}

/-- The record of the stops is as it was. -/
def Unmarked (s s' : Shared Tid) : Prop := s'.cleared = s.cleared ∧ s'.returned = s.returned

theorem Unmarked.refl (s : Shared Tid) : Unmarked s s := ⟨rfl,rfl⟩

theorem running_unmarked (self : Shared Tid) (id : String) : Unmarked self (self.running id).2 := by
  rcases running_cases self id with ⟨_,is⟩ | ⟨_,_,_,is⟩ | ⟨_,_,is⟩ <;> rw [is] <;> exact ⟨rfl,rfl⟩

theorem place_unmarked (self : Shared Tid) (id : String) (loaded : Loaded Child) : Unmarked self (self.place id loaded) := by
  rw [Shared.place]
  cases self.slots id <;> exact ⟨rfl,rfl⟩

theorem running_keeps_marks {id : String} {found : Option Child} (ran : s.running id = (found,s')) : Unmarked s s' := by
  have same := running_unmarked s id
  rw [ran] at same
  exact same

theorem phase_unmarked {request : Request} {phase : Phase} (steps : phase.step config input s request = some (s',job')) :
    Unmarked s s' := by
  cases phase_branch steps with
  | finds _ _ _ ran => exact running_keeps_marks ran
  | misses _ _ ran => exact running_keeps_marks ran
  | places => exact place_unmarked ..
  | _ => exact ⟨rfl,rfl⟩

/-- What a step has to do with a stop: nothing, it calls it, it empties a slot
    or goes on with it, or it returns. -/
inductive Stops (config : Config) (s : Shared Tid) (job : Job) (s' : Shared Tid) (job' : Job) : Prop
  | Aside (same : Unmarked s s') (call : job'.call = none)
  | Calls (same : s' = s) (call : job'.call = some s.next) (left : job'.left.Perm config.ids)
  | Empties (called : ℕ) (id : String) (before : job.call = some called) (left : job.left = id :: job'.left)
      (call : job'.call = some called) (cleared : s'.cleared = Function.update s.cleared id (max (s.cleared id) called))
      (returned : s'.returned = s.returned) (empty : s'.slots id = none)
  | Goes (same : Unmarked s s') (call : job'.call = job.call) (left : job'.left = job.left)
  | Returns (called : ℕ) (here : job = .Signalled called) (done : job' = .Idle) (cleared : s'.cleared = s.cleared)
      (returned : s'.returned = max s.returned called)

theorem phase_call {request : Request} {phase : Phase} (steps : phase.step config input s request = some (s',job')) :
    job'.call = none := by
  rcases phase_lock steps with ⟨_,next,rfl⟩ | ⟨_,leaves⟩
  · rfl
  · cases leaves <;> rfl

theorem step_stops (steps : job.step config input s t = some (s',job')) : Stops config s job s' job' := by
  cases step_branch steps with
  | stops order every => exact .Calls rfl rfl every
  | finds _ _ _ _ ran => exact .Aside (running_keeps_marks ran) rfl
  | misses _ _ _ ran => exact .Aside (running_keeps_marks ran) rfl
  | admits => exact .Aside (phase_unmarked steps) (phase_call steps)
  | clears _ called id rest taken => exact .Empties called id rfl rfl rfl rfl rfl (Function.update_self ..)
  | cleared => exact .Goes (.refl s) rfl rfl
  | ends => exact .Goes ⟨rfl,rfl⟩ rfl rfl
  | signals => exact .Goes ⟨rfl,rfl⟩ rfl rfl
  | returns _ called => exact .Returns called rfl rfl rfl rfl
  | _ => exact .Aside ⟨rfl,rfl⟩ rfl

theorem Stops.cleared_le (stops : Stops config s job s' job') (id : String) : s.cleared id ≤ s'.cleared id := by
  cases stops with
  | Aside same => rw [same.1]
  | Calls same => rw [same]
  | Empties called emptied _ _ _ cleared =>
    rw [cleared]
    by_cases this : id = emptied
    · subst this
      simp
    · simp [this]
  | Goes same => rw [same.1]
  | Returns _ _ _ cleared => rw [cleared]

/-- Where a slot is not empty after a step, no stop has emptied it in it. -/
theorem Stops.cleared_eq (stops : Stops config s job s' job') {id : String} {held : Loaded Child}
    (there : s'.slots id = some held) : s'.cleared id = s.cleared id := by
  cases stops with
  | Aside same => rw [same.1]
  | Calls same => rw [same]
  | Empties called emptied _ _ _ cleared _ empty =>
    have different : id ≠ emptied := by
      intro same
      rw [same,empty] at there
      cases there
    rw [cleared]
    simp [different]
  | Goes same => rw [same.1]
  | Returns _ _ _ cleared => rw [cleared]

theorem Stops.returned_cases (stops : Stops config s job s' job') : s'.returned = s.returned ∨
    ∃ called, job = .Signalled called ∧ job' = .Idle ∧ s'.returned = max s.returned called := by
  cases stops with
  | Aside same => exact .inl same.2
  | Calls same => exact .inl (by rw [same])
  | Empties _ _ _ _ _ _ returned => exact .inl returned
  | Goes same => exact .inl same.2
  | Returns called here done _ returned => exact .inr ⟨called,here,done,returned⟩

theorem Effect.next_le (effect : Effect s job s' job') : s.next ≤ s'.next := by
  cases effect with
  | Quiet _ _ _ next => exact next.ge
  | Clones _ _ _ _ _ _ next => exact next.ge
  | Drops _ _ _ _ next => exact next.ge
  | Takes _ _ _ _ _ _ next => exact next.ge
  | Buries _ _ _ _ _ _ _ next => exact next.ge
  | Spawns _ _ _ _ spawned =>
    rw [spawned]
    exact Nat.le_succ _
  | Places request loaded _ _ placed =>
    rw [placed,Shared.place]
    cases s.slots request.entry.id <;> exact le_rfl

/-- A relay keeps what it relays from until it drops it. -/
theorem relayed_kept {c : Child} (relayed : job.relayed = some c) (steps : job.step config input s t = some (s',job'))
    (holds : c ∈ job'.holds) : job'.relayed = some c := by
  cases step_branch steps with
  | admits _ request phase _ _ branch =>
    cases branch with
    | serves => exact relayed
    | _ => cases relayed
  | relays => exact relayed
  | keeps => exact relayed
  | hangs => exact relayed
  | touches => exact relayed
  | drops => cases holds
  | _ => cases relayed

end Steps

/-! ## In every run whose stops are timely -/

section Runs
variable {Tid : Type} {config : Config}

/-- A stop has emptied every slot it has left behind; a slot holds a child that
    was started after every call of a stop that emptied it; and what was started
    before a stop that has returned is held by relays alone. -/
structure Stoppable (config : Config) (state : State Tid) : Prop where
  called : ∀ t called, (state.jobs t).call = some called → called ≤ state.shared.next ∧
    ∀ id ∈ config.ids, id ∉ (state.jobs t).left → called ≤ state.shared.cleared id
  returned : state.shared.returned ≤ state.shared.next ∧ ∀ id ∈ config.ids, state.shared.returned ≤ state.shared.cleared id
  later : ∀ id held, state.shared.slots id = some held → state.shared.cleared id ≤ held.child.pid
  bearers : ∀ t c, c ∈ (state.jobs t).holds → c.pid < state.shared.returned →
    (state.jobs t).relayed = some c ∨ (state.jobs t).mourns = some c

theorem Stoppable.unplaced {state : State Tid} (stoppable : Stoppable config state) (alone : OneAtATime config state)
    {id : String} {held : Loaded Child} (there : state.shared.slots id = some held) :
    state.shared.returned ≤ held.child.pid := by
  have known := (alone.home id held there).2
  have emptied := stoppable.returned.2 id known
  have started := stoppable.later id held there
  omega

variable {s s' : Shared Tid} {job job' : Job} {c : Child}

/-- What a step holds was held before, came out of a slot, or was started. -/
theorem Effect.holds_from (effect : Effect s job s' job') (holds : c ∈ job'.holds) :
    c ∈ job.holds ∨ (∃ id held, s.slots id = some held ∧ held.child = c) ∨ c.pid = s.next := by
  cases effect with
  | Quiet _ _ _ _ _ same =>
    left
    rwa [same] at holds
  | Clones id loaded there _ _ _ _ _ _ held =>
    rw [held] at holds
    obtain rfl := List.mem_singleton.mp holds
    exact .inr (.inl ⟨id,loaded,there,rfl⟩)
  | Drops child _ _ _ _ _ held =>
    left
    rw [held]
    exact List.mem_cons_of_mem _ holds
  | Takes id loaded there _ _ _ _ _ _ held =>
    rcases List.mem_cons.mp (held.subset holds) with rfl | before
    · exact .inr (.inl ⟨id,loaded,there,rfl⟩)
    · exact .inl before
  | Buries _ _ _ _ _ _ _ _ _ _ held =>
    rw [held] at holds
    cases holds
  | Spawns _ _ _ there =>
    rw [there] at holds
    obtain rfl := List.mem_singleton.mp holds
    exact .inr (.inr rfl)
  | Places request loaded here there =>
    left
    rw [there] at holds
    rw [here]
    exact holds

variable {before after : State Tid} {input : Input} {t : Tid}

/-- The stop that a step belongs to has emptied what it left behind. -/
theorem Stoppable.called_own (stoppable : Stoppable config before) (effect : Effect before.shared (before.jobs t) s' job)
    (stops : Stops config before.shared (before.jobs t) s' job) {called : ℕ} (is : job.call = some called) :
    called ≤ s'.next ∧ ∀ id ∈ config.ids, id ∉ job.left → called ≤ s'.cleared id := by
  have more := effect.next_le
  cases stops with
  | Aside _ nothing =>
    rw [nothing] at is
    cases is
  | Calls same begins left =>
    rw [begins] at is
    cases is
    refine ⟨more,?_⟩
    intro id known gone
    exact absurd (left.symm.subset known) gone
  | Empties call emptied was left now cleared =>
    rw [now] at is
    cases is
    obtain ⟨started,behind⟩ := stoppable.called t _ was
    refine ⟨by omega,?_⟩
    intro id known gone
    rw [cleared]
    by_cases this : id = emptied
    · subst this
      simp
    · simpa [this] using behind id known (by simp [left,this,gone])
  | Goes same call left =>
    rw [call] at is
    obtain ⟨started,behind⟩ := stoppable.called t _ is
    refine ⟨by omega,?_⟩
    rw [left,same.1]
    exact behind
  | Returns _ _ done =>
    rw [done] at is
    cases is

/-- What the last stop to return has emptied. -/
theorem Stoppable.returned_after (stoppable : Stoppable config before)
    (effect : Effect before.shared (before.jobs t) s' job) (stops : Stops config before.shared (before.jobs t) s' job) :
    s'.returned ≤ s'.next ∧ ∀ id ∈ config.ids, s'.returned ≤ s'.cleared id := by
  have more := effect.next_le
  obtain ⟨started,emptied⟩ := stoppable.returned
  rcases stops.returned_cases with same | ⟨called,here,_,returned⟩
  · rw [same]
    refine ⟨by omega,?_⟩
    intro id known
    exact (emptied id known).trans (stops.cleared_le id)
  · obtain ⟨call_started,behind⟩ := stoppable.called t called (by rw [here]; rfl)
    rw [returned]
    refine ⟨by omega,?_⟩
    intro id known
    have first := emptied id known
    have second := behind id known (by rw [here]; exact List.not_mem_nil)
    have kept := stops.cleared_le id
    omega

/-- A slot is filled with a child that was started after the stop that emptied
    it was called, as long as the stops are timely. -/
theorem Stoppable.later_after (stoppable : Stoppable config before) (timely : Timely before (.Act t input))
    (ran : (before.jobs t).step config input before.shared t = some (s',job)) {id : String} {held : Loaded Child}
    (there : s'.slots id = some held) : before.shared.cleared id ≤ held.child.pid := by
  rcases step_shrinks ran with shrinks | ⟨request,loaded,here,placed⟩
  · obtain ⟨old,was,same,_⟩ := shrinks id held there
    rw [← same]
    exact stoppable.later id old was
  · rw [placed,place_slots] at there
    by_cases this : id = request.entry.id
    · subst this
      rw [Function.update_self] at there
      cases there
      simpa [Timely,here] using timely
    · rw [Function.update_of_ne this] at there
      exact stoppable.later id held there

/-- The thread that steps goes on holding nothing old but what it relays from. -/
theorem Stoppable.bearers_own (stoppable : Stoppable config before) (alone : OneAtATime config before)
    (ran : (before.jobs t).step config input before.shared t = some (s',job)) (holds : c ∈ job.holds)
    (earlier : c.pid < before.shared.returned) : job.relayed = some c ∨ job.mourns = some c := by
  rcases (step_effect ran).holds_from holds with was | ⟨id,held,there,rfl⟩ | started
  · rcases stoppable.bearers t c was earlier with relayed | mourns
    · exact .inl (relayed_kept relayed ran holds)
    · rw [mourning_ends mourns ran] at holds
      cases holds
  · have placed := stoppable.unplaced alone there
    omega
  · have first := stoppable.returned.1
    omega

variable [DecidableEq Tid]

/-- A step of a thread leaves what the stops rely on. -/
theorem Stoppable.act (stoppable : Stoppable config before) (alone : OneAtATime config before)
    (timely : Timely before (.Act t input))
    (ran : (before.jobs t).step config input before.shared t = some (after.shared,job))
    (jobs : after.jobs = Function.update before.jobs t job) : Stoppable config after := by
  have effect := step_effect ran
  have stops := step_stops ran
  refine ⟨fun u called is => ?_,stoppable.returned_after effect stops,fun id held there => ?_,fun u c holds earlier => ?_⟩
  · rw [jobs] at is ⊢
    by_cases this : u = t
    · subst this
      rw [Function.update_self] at is ⊢
      exact stoppable.called_own effect stops is
    · rw [Function.update_of_ne this] at is ⊢
      obtain ⟨started,behind⟩ := stoppable.called u called is
      refine ⟨started.trans effect.next_le,?_⟩
      intro id known gone
      exact (behind id known gone).trans (stops.cleared_le id)
  · rw [stops.cleared_eq there]
    exact stoppable.later_after timely ran there
  · rw [jobs] at holds ⊢
    rcases stops.returned_cases with same | ⟨called,here,done,returned⟩
    · rw [same] at earlier
      by_cases this : u = t
      · subst this
        rw [Function.update_self] at holds ⊢
        exact stoppable.bearers_own alone ran holds earlier
      · rw [Function.update_of_ne this] at holds ⊢
        exact stoppable.bearers u c holds earlier
    -- The stop that returns holds nothing any more, and its timeliness speaks for the others.
    · by_cases this : u = t
      · subst this
        rw [Function.update_self,done] at holds
        cases holds
      · rw [Function.update_of_ne this] at holds ⊢
        by_cases long_ago : c.pid < before.shared.returned
        · exact stoppable.bearers u c holds long_ago
        · have recently : c.pid < called := by omega
          simp only [Timely,here] at timely
          exact timely u c holds recently

theorem stoppable {state : State Tid} (reached : Transition.Reaches (router config Tid) Timely state) :
    Stoppable config state := by
  refine Transition.Reaches.invariant ?_ (fun before event after reached stoppable timely steps => ?_) reached
  · refine ⟨fun t called is => ?_,⟨le_rfl,fun id _ => le_rfl⟩,fun id held there => ?_,fun t c holds => ?_⟩
    · cases is
    · cases there
    · cases holds
  · rcases step_cases steps with ⟨clock,shared,jobs⟩ | ⟨child,status,_,jobs,shared⟩ | ⟨t,input,job,rfl,ran,jobs⟩
    · exact ⟨by rw [shared,jobs]; exact stoppable.called,by rw [shared]; exact stoppable.returned,
        by rw [shared]; exact stoppable.later,by rw [shared,jobs]; exact stoppable.bearers⟩
    · exact ⟨by rw [shared,jobs]; exact stoppable.called,by rw [shared]; exact stoppable.returned,
        by rw [shared]; exact stoppable.later,by rw [shared,jobs]; exact stoppable.bearers⟩
    · exact stoppable.act (oneAtATime reached) timely ran jobs

/-- In every run whose stops are timely, whatever the order of the steps: once a
    stop has returned, what had been started before it was called is reaped
    unless a relay holds it, and is in no slot then or later. -/
theorem stop_leaves_relayed [Fintype Tid] {state : State Tid}
    (reached : Transition.Reaches (router config Tid) Timely state) : Stopped state := by
  have alone := oneAtATime reached
  have invariant := stoppable reached
  have unplaced (id : String) (held : Loaded Child) (there : state.shared.slots id = some held) :=
    invariant.unplaced alone there
  refine ⟨fun c born earlier => ?_,unplaced⟩
  by_contra left
  obtain ⟨unreaped,unrelayed⟩ := not_or.mp left
  refine unreaped ((counted_reaches reached).gone born ?_ ?_)
  · by_contra slotted
    obtain ⟨held,there,rfl⟩ := inSlot_pos.mp slotted
    have later := unplaced _ held there
    omega
  · intro t holds
    rcases invariant.bearers t c holds earlier with relayed | mourns
    · exact unrelayed ⟨t,relayed⟩
    · exact unreaped (mourned reached t c mourns)

end Runs

/-! ## A stop beside an admission -/

section Scenario
variable {Tid : Type}

/-- The event keeps the stops timely. -/
def timely [Fintype Tid] (s : State Tid) : Event Tid → Bool
  | .Act t _ => match s.jobs t with
    | .Admitting request (.Placing loaded) => decide (s.shared.cleared request.entry.id ≤ loaded.child.pid)
    | .Signalled called => decide (∀ u, ∀ c ∈ (s.jobs u).holds, c.pid < called →
      (s.jobs u).relayed = some c ∨ (s.jobs u).mourns = some c)
    | _ => true
  | _ => true

theorem timely_spec [Fintype Tid] (s : State Tid) (event : Event Tid) (permitted : timely s event = true) :
    Timely s event := by
  cases event with
  | Act t input =>
    simp only [timely] at permitted
    simp only [Timely]
    split at permitted
    · exact of_decide_eq_true permitted
    · exact of_decide_eq_true permitted
    · trivial
  | _ => trivial

/-- The steps of a stop that finds so many children in the one slot. -/
def stopping (t : Tid) (found : ℕ) : List (Event Tid) := (.Stop ["m"] :: List.replicate (5 + found) .Go).map (.Act t)

end Scenario

/-- A child that is relayed from outlasts the stop, and goes with its relay. -/
theorem relay_outlasts_stop : ∃ state, Transition.Reaches (router oneModel Bool) Timely state ∧ state.shared.returned = 1 ∧
    (∀ t, (state.jobs t).relayed = none) ∧ (state.shared.life ⟨0,"m"⟩).isReaped = true := by
  have passes : ((router oneModel Bool).run timely (State.start Bool)
      (spawning false ++ serving 8 false ++ stopping true 1 ++ leaving false)).any (fun state =>
        state.shared.returned = 1 ∧ (∀ t, (state.jobs t).relayed = none) ∧ state.shared.life ⟨0,"m"⟩ ≠ .Unborn) = true := by
    decide +kernel
  obtain ⟨state,reached,checked⟩ := Transition.exists_of_run timely_spec passes
  obtain ⟨returned,unrelayed,born⟩ := of_decide_eq_true checked
  refine ⟨state,reached,returned,unrelayed,?_⟩
  rcases (stop_leaves_relayed reached).ended ⟨0,"m"⟩ born (by rw [returned]; exact Nat.zero_lt_one) with reaped | ⟨t,relayed⟩
  · exact reaped
  · rw [unrelayed t] at relayed
    cases relayed

/-- A stop called while a child is loading returns before it is placed: nobody
    relays from it, and it runs on in its slot. -/
theorem placed_after_stop : ∃ state, Transition.Reaches (router oneModel Bool) (fun _ _ => True) state ∧ ¬ Stopped state ∧
    state.shared.returned = 1 ∧ (∀ t, (state.jobs t).relayed = none) ∧ state.shared.life ⟨0,"m"⟩ = .Running ∧
    inSlot state.shared.slots ⟨0,"m"⟩ = 1 := by
  have passes : ((router oneModel Bool).run (fun _ _ => true) (State.start Bool)
      (spawning false ++ stopping true 0 ++ serving 8 false ++ leaving false)).any (fun state =>
        state.shared.returned = 1 ∧ (∀ t, (state.jobs t).relayed = none) ∧ state.shared.life ⟨0,"m"⟩ = .Running ∧
        inSlot state.shared.slots ⟨0,"m"⟩ = 1) = true := by
    decide +kernel
  obtain ⟨state,reached,checked⟩ := Transition.exists_of_run (fun _ _ _ => trivial) passes
  obtain ⟨returned,unrelayed,running,slotted⟩ := of_decide_eq_true checked
  refine ⟨state,reached,?_,returned,unrelayed,running,slotted⟩
  intro stopped
  rcases stopped.ended ⟨0,"m"⟩ (by simp [running]) (by rw [returned]; exact Nat.zero_lt_one) with reaped | ⟨t,relayed⟩
  · rw [running] at reaped
    cases reaped
  · rw [unrelayed t] at relayed
    cases relayed

end Maestro.Threads
