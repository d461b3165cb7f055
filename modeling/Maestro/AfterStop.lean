import Maestro.Kept
import Maestro.Stopping

/-!
# After a stop

A stop ends idle unloading for the rest of the router's life. Once its signal is
set and the sweep that was going on has ended nobody sweeps again: what leaves
its slot from then on has exited, or makes room for an admission.
-/
namespace Maestro.Threads
open Slots (Loaded)
open Store (Op May)

/-- The thread is on one of the reaper's sweeps. -/
def Job.sweeps : Job → Bool
  | .Sweeping _ _ _ | .Swept _ _ _ _ _ | .Expiring _ _ _ => true
  | _ => false

section Steps
variable {Tid : Type} {config : Config} {input : Input} {s s' : Shared Tid} {job job' : Job} {t : Tid}

/-- A sweep goes on, or begins before the signal. -/
theorem sweeps_from (steps : job.step config input s t = some (s',job')) (sweeps : job'.sweeps = true) :
    job.sweeps = true ∨ s.signalled = false := by
  cases step_branch steps with
  | reaps _ unsignalled => exact .inr unsignalled
  | buries | unloads | passes | swept | reaped | names | looks | expires => exact .inl rfl
  | admits =>
    rcases phase_lock steps with ⟨_,next,rfl⟩ | ⟨_,leaves⟩
    · cases sweeps
    · cases leaves <;> cases sweeps
  | _ => cases sweeps

theorem running_signalled {id : String} {found : Option Child} (ran : s.running id = (found,s')) : s'.signalled = s.signalled := by
  rcases running_cases s id with ⟨_,is⟩ | ⟨_,_,_,is⟩ | ⟨_,_,is⟩
  · rw [ran] at is
    cases is
    rfl
  · rw [ran] at is
    cases is
    rfl
  · rw [ran] at is
    cases is
    rfl

theorem place_signalled (id : String) (loaded : Loaded Child) : (s.place id loaded).signalled = s.signalled := by
  cases there : s.slots id <;> simp [Shared.place,Shared.discard,there,Shared.clone,Shared.put,Shared.release]

/-- The signal is set for good. -/
theorem signalled_step (steps : job.step config input s t = some (s',job')) (signalled : s.signalled = true) :
    s'.signalled = true := by
  cases step_branch steps with
  | finds _ _ _ _ ran => exact (running_signalled ran).trans signalled
  | misses _ _ _ ran => exact (running_signalled ran).trans signalled
  | admits _ _ _ _ _ branch =>
    cases branch with
    | finds _ _ _ ran => exact (running_signalled ran).trans signalled
    | misses _ _ ran => exact (running_signalled ran).trans signalled
    | places _ loaded => exact (place_signalled _ loaded).trans signalled
    | _ => exact signalled
  | signals => rfl
  | _ => exact signalled

end Steps

/-- The signal is set, nobody is on a sweep any more, and no stop is under way. -/
structure SweepsOver {Tid : Type} (state : State Tid) : Prop where
  signalled : state.shared.signalled = true
  unswept : ∀ t, (state.jobs t).sweeps = false
  uncleared : ∀ t, (state.jobs t).clears = false

section Runs
variable {Tid : Type} [DecidableEq Tid] {config : Config} {before after : State Tid} {event : Event Tid}

/-- Without another stop it stays so. -/
theorem SweepsOver.step (finished : SweepsOver before) (quiet : NoStop before event) (steps : before.step config event = some after) :
    SweepsOver after := by
  rcases step_cases steps with ⟨_,shared,jobs⟩ | ⟨_,_,_,jobs,shared⟩ | ⟨t,input,job,is,ran,jobs⟩
  · refine ⟨?_,fun t => ?_,fun t => ?_⟩
    · rw [shared]
      exact finished.signalled
    · rw [jobs]
      exact finished.unswept t
    · rw [jobs]
      exact finished.uncleared t
  · refine ⟨?_,fun t => ?_,fun t => ?_⟩
    · rw [shared]
      exact finished.signalled
    · rw [jobs]
      exact finished.unswept t
    · rw [jobs]
      exact finished.uncleared t
  · have unswept : job.sweeps = false := by
      rw [Bool.eq_false_iff]
      intro sweeps
      rcases sweeps_from ran sweeps with swept | unsignalled
      · rw [finished.unswept t] at swept
        cases swept
      · rw [finished.signalled] at unsignalled
        cases unsignalled
    have uncleared : job.clears = false := by
      rw [Bool.eq_false_iff]
      intro clears
      rcases clears_from ran clears with cleared | ⟨order,stops⟩
      · rw [finished.uncleared t] at cleared
        cases cleared
      · exact quiet t order (by rw [is,stops])
    refine ⟨signalled_step ran finished.signalled,?_,?_⟩
    · rw [jobs]
      exact (Function.forall_update_iff before.jobs fun _ job => job.sweeps = false).mpr ⟨unswept,fun u _ => finished.unswept u⟩
    · rw [jobs]
      exact (Function.forall_update_iff before.jobs fun _ job => job.clears = false).mpr ⟨uncleared,fun u _ => finished.uncleared u⟩

variable [Fintype Tid]

/-- A child that leaves its slot was taken out by the thread that took the step,
    which may do that. -/
theorem taken_by (reached : Transition.Reaches (router config Tid) (fun _ _ => True) before) (steps : before.step config event = some after)
    {id : String} {held : Loaded Child} (there : before.shared.slots id = some held)
    (left : (after.shared.slots id).map Loaded.child ≠ some held.child) :
    ∃ t input why, event = .Act t input ∧ Doing config before.shared (before.jobs t) (.Takes id held.child why) := by
  obtain ⟨ops,runs,accounted⟩ := step_seen reached (every_ground before) trivial steps
  have was : before.view.held id = some held.child := by
    change (before.shared.slots id).map Loaded.child = _
    rw [there,Option.map_some]
  obtain ⟨why,member⟩ := Store.taken_of_left runs was left
  have accounts := accounted _ member
  cases event with
  | Tick => cases accounts
  | Dies => cases accounts
  | Act t input => exact ⟨t,input,why,rfl,accounts⟩

/-- A child leaves its slot in a step: it had exited, or the step is that of an
    admission that unloads it while nobody reads from it. -/
def ExitedOrUnloaded (before : State Tid) (event : Event Tid) (id : String) (child : Child) : Prop :=
  (∃ status, before.shared.check child = .Exited status) ∨
    ∃ t input request named rest, event = .Act t input ∧ before.jobs t = .Admitting request (.Unloading named (id :: rest)) ∧
      before.shared.strong child ≤ 1

omit [DecidableEq Tid] [Fintype Tid] in
/-- Where nobody sweeps and nobody stops, there are no other reasons. -/
theorem SweepsOver.leaves (finished : SweepsOver before) {t : Tid} {input : Input} {id : String} {child : Child} {why : Store.Reason}
    (does : Doing config before.shared (before.jobs t) (.Takes id child why)) : ExitedOrUnloaded before (.Act t input) id child := by
  have unswept := finished.unswept t
  have uncleared := finished.uncleared t
  generalize doing : before.jobs t = job at does unswept uncleared
  cases does with
  | misses looks there gone => exact .inl ⟨_,gone⟩
  | buries => cases unswept
  | unloads there idle => exact .inr ⟨t,input,_,_,_,rfl,doing,idle⟩
  | expires => cases unswept
  | clears => cases uncleared

/-- Stop ends idle unloading for good: once its signal is set and the sweep that
    was going on has ended, in every run without another stop nobody sweeps, and
    with every step that follows, what leaves its slot has exited or is unloaded
    by an admission, however long it has been idle and whatever the window is. -/
theorem stop_ends_idle (reached : Transition.Reaches (router config Tid) (fun _ _ => True) before) (finished : SweepsOver before)
    {events : List (Event Tid)} (trace : Transition.Trace (router config Tid) NoStop before events after) :
    (∀ t, (after.jobs t).sweeps = false) ∧ ∀ event last, NoStop after event → after.step config event = some last →
      ∀ id held, after.shared.slots id = some held → (last.shared.slots id).map Loaded.child ≠ some held.child →
        ExitedOrUnloaded after event id held.child := by
  have onward := trace.startAt before
  have still : SweepsOver after :=
    (onward.reaches .start).invariant finished fun _ _ _ _ finished quiet steps => finished.step quiet steps
  refine ⟨still.unswept,fun event last _ steps id held there left => ?_⟩
  have reached' := (trace.mono fun _ _ _ => trivial).reaches reached
  obtain ⟨t,input,why,rfl,does⟩ := taken_by reached' steps there left
  exact still.leaves does

end Runs

/-- The window is one tick; after a stop a model is loaded, sits idle for four,
    and stays, for no sweep can begin. -/
theorem idle_stays_after_stop : ∃ before after : State Bool, SweepsOver before ∧ (∃ held ∈ after.shared.slots "m", held.lastUsed = 0) ∧
    after.shared.clock = 4 ∧ after.step oneModel (.Act true .Reap) = none ∧ (∀ t, (after.jobs t).sweeps = false) ∧
    ∀ event last, NoStop after event → after.step oneModel event = some last →
      ∀ id held, after.shared.slots id = some held → (last.shared.slots id).map Loaded.child ≠ some held.child →
        ExitedOrUnloaded after event id held.child := by
  have stops : ((router oneModel Bool).run (fun _ _ => true) (State.start Bool) (stopping true 0)).any (fun before =>
      before.shared.signalled = true ∧ (∀ t, (before.jobs t).sweeps = false ∧ (before.jobs t).clears = false) ∧
      ((router oneModel Bool).run noStop before
        (spawning false ++ serving 8 false ++ leaving false ++ [.Tick,.Tick,.Tick,.Tick])).any fun after =>
          (∃ held ∈ after.shared.slots "m", held.lastUsed = 0) ∧ after.shared.clock = 4 ∧
            (after.step oneModel (.Act true .Reap)).isNone = true) = true := by
    decide +kernel
  obtain ⟨before,stopped,checked⟩ := (Option.any_eq_true ..).mp stops
  obtain ⟨signalled,quiet,goes⟩ := of_decide_eq_true checked
  obtain ⟨after,runs,checked⟩ := (Option.any_eq_true ..).mp goes
  obtain ⟨loaded,late,disabled⟩ := of_decide_eq_true checked
  have reached := Transition.run_reaches (fun _ _ _ => trivial) .start stopped
  have finished : SweepsOver before := ⟨signalled,fun t => (quiet t).1,fun t => (quiet t).2⟩
  obtain ⟨unswept,leaves⟩ := stop_ends_idle reached finished (Transition.trace_of_run noStop_spec runs)
  exact ⟨before,after,finished,loaded,late,Option.isNone_iff_eq_none.mp disabled,unswept,leaves⟩

end Maestro.Threads
