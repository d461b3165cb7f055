import Maestro.FreedRoom
import Maestro.Launching
import Maestro.Locks
import Maestro.Simulation

/-!
# Every run can come to rest

No state that is reached is stuck: the threads that are doing something can
finish it, in some order of their steps and with some answers of the world, and
without a new call, and then no lock is held. What is left is what the slots
hold.
-/
namespace Maestro.Threads
open Slots (Loaded Slot Table)

/-! ## What a thread has left to do -/

/-- What is left of an admission, for a catalog of so many entries. -/
def Phase.work (entries : ℕ) : Phase → ℕ
  | .Rechecking => 5
  | .Resolving => 2
  | .Asking => 3 * entries + 6
  | .Weighing _ rest seen => 3 * rest.length + 2 * seen.length + 5
  | .Unloading _ rest => 2 * rest.length + 4
  | .Ending _ _ rest => 2 * rest.length + 5
  | .Turning _ _ => 3
  | .Starting _ => 2
  | .Loading _ _ _ => 4
  | .Abandoning _ _ _ => 3
  | .Measuring _ => 6
  | .Placing _ => 5
  | .Placed _ => 4

/-- What is left of what a thread is doing: the most steps it takes where the
    world answers so as to end it. -/
def Job.work (entries : ℕ) : Job → ℕ
  | .Idle => 0
  | .Running _ => 7
  | .Queued _ => 6
  | .Admitting _ phase => phase.work entries
  | .Failed _ _ => 1
  | .Serving _ _ => 3
  | .Touching _ _ => 2
  | .Dropping _ _ => 1
  | .Sweeping .Exited rest _ => 2 * rest.length + 3 * entries + 3
  | .Sweeping (.Idle _) rest _ => 2 * rest.length + 1
  | .Swept .Exited _ _ rest _ => 2 * rest.length + 3 * entries + 4
  | .Swept (.Idle _) _ _ rest _ => 2 * rest.length + 2
  | .Expiring _ rest seen => 3 * rest.length + 2 * seen.length + 2
  | .Clearing _ rest taken => 2 * rest.length + taken.length + 3
  | .Stopping _ rest => rest.length + 2
  | .Signalled _ => 1
  | .Listing rest _ => rest.length + 1
  | .Holding _ rest _ => rest.length + 1

/-- Nothing is left to a thread that is idle alone. -/
theorem idle_of_work {entries : ℕ} {job : Job} (done : job.work entries = 0) : job = .Idle := by
  cases job with
  | Idle => rfl
  | Admitting request phase => cases phase <;> simp [Job.work,Phase.work] at done
  | Sweeping kind => cases kind <;> simp [Job.work] at done
  | Swept kind => cases kind <;> simp [Job.work] at done
  | _ => simp [Job.work] at done

/-- The answer of the world that ends what a thread is doing: a start that fails,
    a wait that has expired. -/
def Phase.ending : Phase → Input
  | .Resolving => .Resolve (some (.Unavailable "no model file"))
  | .Asking => .Device none
  | .Turning _ _ => .Clock true
  | .Starting _ => .Spawn (some (.Unavailable "the server binary would not start"))
  | .Loading _ _ _ => .Poll none true
  | .Measuring _ => .Measure ⟨none,none⟩
  | _ => .Go

def Job.ending : Job → Input
  | .Admitting _ phase => phase.ending
  | _ => .Go

section Steps
variable {Tid : Type} {config : Config} {input : Input} {s s' : Shared Tid} {job job' : Job} {t : Tid}

theorem seen_length_le (entry : Entry) : (s.seen entry).length ≤ 1 := by
  rw [Shared.seen]
  cases s.slots entry.id <;> simp

theorem expired_length_le (window : Option ℕ) (seen : List Admission.Loaded) (now : ℕ) : (expired window seen now).length ≤ seen.length := by
  cases window with
  | none => exact Nat.zero_le _
  | some duration =>
    rw [expired,List.length_map,List.length_insertionSort]
    exact List.length_filter_le ..

theorem unload_length_le {budget : Admission.Budget} {seen : List Admission.Loaded} {wanted : Admission.Wanted} {free : Option ℕ}
    {ids : List String} (decided : budget.admit seen wanted free = some (.Unload ids)) : ids.length ≤ seen.length := by
  obtain ⟨chosen,rfl,part,_⟩ := Admission.unload_room decided
  rw [List.length_map]
  have named := part.length_le
  have kept : (Admission.candidates seen wanted).length ≤ seen.length := by
    rw [Admission.candidates_perm.length_eq]
    exact List.length_filter_le ..
  omega

/-- A wait that has expired does not sleep. -/
theorem turn_expired {id : String} {decision : Admission.Decision} {blocker : Option String} {wait : ℕ} :
    MakeRoom.turn id decision blocker wait true ≠ .Sleeps := by
  cases decision with
  | Fits => exact MakeRoom.Turn.noConfusion
  | Unload ids => cases blocker <;> exact MakeRoom.Turn.noConfusion
  | Blocked message => exact MakeRoom.Turn.noConfusion
  | Refuse message => exact MakeRoom.Turn.noConfusion

/-- With such an answer, a step of an admission leaves less to do. -/
theorem PhaseBranch.lowers {request : Request} {phase : Phase} (branch : PhaseBranch config s request input phase s' job')
    (ends : input = phase.ending) : job'.work config.catalog.entries.length < phase.work config.catalog.entries.length := by
  cases branch with
  | resolves => cases ends
  | weighs _ _ entry =>
    have more := seen_length_le (s := s) entry
    simp only [Job.work,Phase.work,List.length_cons,List.length_append]
    omega
  | chooses _ _ _ _ decided =>
    have fewer := unload_length_le decided
    simp only [Job.work,Phase.work,List.length_nil]
    omega
  | sleeps _ _ _ turned =>
    cases ends
    exact absurd turned turn_expired
  | spawns => cases ends
  | ready => cases ends
  | polls => cases ends
  | _ =>
    simp only [Job.work,Phase.work,List.length_cons,List.length_nil]
    omega

theorem Branch.lowers (branch : Branch config s t input job s' job') (busy : job ≠ .Idle) (ends : input = job.ending) :
    job'.work config.catalog.entries.length < job.work config.catalog.entries.length := by
  cases branch with
  | asks => exact absurd rfl busy
  | reaps => exact absurd rfl busy
  | stops => exact absurd rfl busy
  | lists => exact absurd rfl busy
  | hangs => cases ends
  | catalogues => cases ends
  | admits _ _ _ _ _ branch => exact branch.lowers ends
  | passes _ kind =>
    cases kind <;> simp only [Job.work,List.length_cons] <;> omega
  | names _ kind =>
    cases kind <;> simp only [Job.work] <;> omega
  | looks _ _ entry =>
    have more := seen_length_le (s := s) entry
    simp only [Job.work,List.length_cons,List.length_append]
    omega
  | expires _ now seen =>
    have fewer := expired_length_le config.idleWindow.duration seen now
    simp only [Job.work,List.length_nil]
    omega
  | clears _ _ id =>
    have more : ((s.slots id).map Loaded.child).toList.length ≤ 1 := by cases s.slots id <;> simp
    simp only [Job.work,List.length_cons,List.length_append]
    omega
  | _ =>
    simp only [Job.work,Phase.work,List.length_cons,List.length_nil]
    omega

/-- A step of an admission can be taken with that answer. -/
theorem phase_answers (config : Config) (s : Shared Tid) (request : Request) (phase : Phase) :
    ∃ after, phase.step config phase.ending s request = some after := by
  cases phase with
  | Rechecking =>
    rw [Phase.step]
    rcases s.running request.entry.id with ⟨_ | child,shared⟩ <;> exact ⟨_,rfl⟩
  | Weighing free rest seen =>
    cases rest with
    | cons entry rest => exact ⟨_,rfl⟩
    | nil =>
      rw [Phase.step]
      split <;> exact ⟨_,rfl⟩
  | Unloading named rest =>
    cases rest with
    | nil => exact ⟨_,rfl⟩
    | cons id rest =>
      rw [Phase.step]
      split <;> exact ⟨_,rfl⟩
  | Turning decision blocker =>
    simp only [Phase.step,Phase.ending]
    split <;> exact ⟨_,rfl⟩
  | Loading child everConnected second =>
    simp only [Phase.step,Phase.ending]
    split <;> exact ⟨_,rfl⟩
  | Abandoning child failure again => cases again <;> exact ⟨_,rfl⟩
  | _ => exact ⟨_,rfl⟩

/-- So can a step of a thread that is doing something, unless it waits for the
    admission lock. -/
theorem answers (config : Config) (s : Shared Tid) (t : Tid) (busy : job ≠ .Idle)
    (free : ∀ request, job = .Queued request → s.admission = none) : ∃ after, job.step config job.ending s t = some after := by
  cases job with
  | Idle => exact absurd rfl busy
  | Running request =>
    rw [Job.step]
    rcases s.running request.entry.id with ⟨_ | child,shared⟩ <;> exact ⟨_,rfl⟩
  | Queued request =>
    rw [Job.step,free request rfl]
    exact ⟨_,rfl⟩
  | Admitting request phase => exact phase_answers config s request phase
  | Sweeping kind rest named =>
    cases rest with
    | nil => cases kind <;> exact ⟨_,rfl⟩
    | cons id rest =>
      rw [Job.step,sweep]
      split <;> exact ⟨_,rfl⟩
  | Expiring now rest seen => cases rest <;> exact ⟨_,rfl⟩
  | Clearing called rest taken => cases rest <;> exact ⟨_,rfl⟩
  | Stopping called rest => cases rest <;> exact ⟨_,rfl⟩
  | Listing rest loaded => cases rest <;> exact ⟨_,rfl⟩
  | Holding loaded rest held => cases rest <;> exact ⟨_,rfl⟩
  | _ => exact ⟨_,rfl⟩

end Steps

/-! ## What is left of a whole state -/

section States
variable {Tid : Type} [Fintype Tid] [DecidableEq Tid] {config : Config} {before after state : State Tid} {t : Tid} {input : Input}

/-- A thread has yet to take the lock of the slot it needs. -/
def State.unlocked (state : State Tid) (t : Tid) : Bool := (state.jobs t).needs.any fun id => state.guards id ≠ some t

/-- What is left to one thread: two for each of its steps, one of them for a
    lock. -/
def State.load (state : State Tid) (entries : ℕ) (t : Tid) : ℕ :=
  2 * (state.jobs t).work entries + if state.unlocked t then 1 else 0

def State.work (state : State Tid) (entries : ℕ) : ℕ := ∑ t, state.load entries t

/-- A thread that was doing something takes a step; no call begins, no time
    passes, and no process exits. -/
def Finishes (state : State Tid) (event : Event Tid) : Prop := ∃ t input, event = .Act t input ∧ state.jobs t ≠ .Idle

/-- Nobody is doing anything. -/
def AtRest (state : State Tid) : Prop := ∀ t, state.jobs t = .Idle

theorem work_lt (entries : ℕ) (own : after.load entries t < before.load entries t)
    (others : ∀ u ≠ t, after.load entries u = before.load entries u) : after.work entries < before.work entries := by
  refine Finset.sum_lt_sum (fun u _ => ?_) ⟨t,Finset.mem_univ t,own⟩
  by_cases this : u = t
  · rw [this]
    exact own.le
  · exact (others u this).le

omit [Fintype Tid] in
/-- What another thread has left to do stays, with the locks it has. -/
theorem load_same (entries : ℕ) {u : Tid} (jobs : after.jobs u = before.jobs u)
    (guards : ∀ id, after.guards id = some u ↔ before.guards id = some u) : after.load entries u = before.load entries u := by
  have same : after.unlocked u = before.unlocked u := by
    rw [State.unlocked,State.unlocked,jobs]
    congr 1
    funext id
    exact decide_eq_decide.mpr (not_congr (guards id))
  rw [State.load,State.load,jobs,same]

/-- The lock of a slot is taken by a thread that needs it. -/
theorem takes_lock (entries : ℕ) {id : String} (needs : (before.jobs t).needs = some id) (unheld : before.guards id = none) :
    ({ before with guards := Function.update before.guards id (some t) } : State Tid).work entries < before.work entries := by
  refine work_lt (t := t) entries ?_ fun u other => load_same entries rfl fun named => ?_
  · have was : before.unlocked t = true := by simp [State.unlocked,needs,unheld]
    have now : ({ before with guards := Function.update before.guards id (some t) } : State Tid).unlocked t = false := by
      simp [State.unlocked,needs]
    rw [State.load,State.load,was,now]
    simp
  · change Function.update before.guards id (some t) named = some u ↔ _
    by_cases this : named = id
    · rw [this,Function.update_self,unheld]
      exact iff_of_false (fun same => other (Option.some.inj same).symm) (by simp)
    · rw [Function.update_of_ne this]

omit [Fintype Tid] in
/-- A thread's own step leaves it less to do, whatever lock it needs next. -/
theorem load_lt {entries : ℕ} (lowers : (after.jobs t).work entries < (before.jobs t).work entries) :
    after.load entries t < before.load entries t := by
  have most : (if after.unlocked t then 1 else 0) ≤ 1 := by split_ifs <;> omega
  rw [State.load,State.load]
  omega

/-- A step of a thread, under its lock or without one, leaves less to do. -/
theorem steps_on (busy : before.jobs t ≠ .Idle) (free : ∀ request, before.jobs t = .Queued request → before.shared.admission = none)
    (locked : ∀ id, (before.jobs t).needs = some id → before.guards id = some t) :
    ∃ after, before.act config t (before.jobs t).ending = some after ∧
      after.work config.catalog.entries.length < before.work config.catalog.entries.length := by
  obtain ⟨⟨shared,job⟩,ran⟩ := answers config before.shared t busy free
  have lowers := (step_branch ran).lowers busy rfl
  have advances : before.advance config t (before.jobs t).ending =
      some { before with shared := shared, jobs := Function.update before.jobs t job } := by
    rw [State.advance,ran]
    rfl
  have less (guards : String → Option Tid) (same : ∀ u ≠ t, ∀ id, guards id = some u ↔ before.guards id = some u) :
      (⟨shared,Function.update before.jobs t job,guards⟩ : State Tid).work config.catalog.entries.length <
        before.work config.catalog.entries.length := by
    refine work_lt (t := t) _ (load_lt ?_) fun u other => load_same _ (Function.update_of_ne other ..) (same u other)
    change (Function.update before.jobs t job t).work _ < _
    rw [Function.update_self]
    exact lowers
  cases needs : (before.jobs t).needs with
  | none =>
    refine ⟨_,?_,less before.guards fun _ _ _ => Iff.rfl⟩
    rw [State.act,needs]
    exact advances
  | some id =>
    have own := locked id needs
    refine ⟨_,?_,less (Function.update before.guards id none) fun u other named => ?_⟩
    · rw [State.act,needs]
      simp only [own,if_true,advances,Option.map_some]
    · by_cases this : named = id
      · rw [this,Function.update_self,own]
        exact iff_of_false (by simp) fun same => other (Option.some.inj same).symm
      · rw [Function.update_of_ne this]

/-- Where some thread is doing something, one of them can take a step. -/
theorem somebody_steps (guarded : Guarded before) (admits : Admits before) (busy : ¬ AtRest before) :
    ∃ event after, Finishes before event ∧ before.step config event = some after ∧
      after.work config.catalog.entries.length < before.work config.catalog.entries.length := by
  have acts {t : Tid} (busy : before.jobs t ≠ .Idle)
      (goes : ∃ after, before.act config t (before.jobs t).ending = some after ∧
        after.work config.catalog.entries.length < before.work config.catalog.entries.length) :
      ∃ event after, Finishes before event ∧ before.step config event = some after ∧
        after.work config.catalog.entries.length < before.work config.catalog.entries.length := by
    obtain ⟨after,goes,less⟩ := goes
    exact ⟨.Act t (before.jobs t).ending,after,⟨t,_,rfl,busy⟩,goes,less⟩
  by_cases held : ∃ id t, before.guards id = some t
  · -- Whoever holds a slot's lock takes its step.
    obtain ⟨id,t,held⟩ := held
    have needs := guarded id t held
    have busy : before.jobs t ≠ .Idle := fun idle => by
      rw [idle] at needs
      cases needs
    refine acts busy (steps_on busy (fun request queued => ?_) fun other needed => ?_)
    · rw [queued] at needs
      cases needs
    · rw [needs] at needed
      cases needed
      exact held
  · have unheld (id : String) : before.guards id = none := by
      by_contra some_thread
      obtain ⟨t,is⟩ := Option.ne_none_iff_exists'.mp some_thread
      exact held ⟨id,t,is⟩
    -- No slot's lock is held: whoever admits goes on, and where nobody does, anyone.
    have goes_on {t : Tid} (busy : before.jobs t ≠ .Idle)
        (free : ∀ request, before.jobs t = .Queued request → before.shared.admission = none) :
        ∃ event after, Finishes before event ∧ before.step config event = some after ∧
          after.work config.catalog.entries.length < before.work config.catalog.entries.length := by
      cases needs : (before.jobs t).needs with
      | none => exact acts busy (steps_on busy free fun id needed => (by rw [needs] at needed; cases needed))
      | some id =>
        refine acts busy ⟨_,?_,takes_lock _ needs (unheld id)⟩
        rw [State.act,needs]
        simp only [unheld]
    cases admitting : before.shared.admission with
    | some t =>
      have admits := admits t admitting
      refine goes_on (t := t) (fun idle => ?_) fun request queued => ?_
      · rw [idle] at admits
        cases admits
      · rw [queued] at admits
        cases admits
    | none =>
      obtain ⟨t,busy⟩ := not_forall.mp busy
      exact goes_on busy fun _ _ => admitting

/-- From every state that is reached, whatever has happened until then, the
    threads can finish what they are doing by steps of their own: no call
    begins, no time passes and no process exits on the way. Then nobody holds a
    lock. -/
theorem comes_to_rest {allowed : State Tid → Event Tid → Prop} (reached : Transition.Reaches (router config Tid) allowed state) :
    ∃ events after, Transition.Trace (router config Tid) Finishes state events after ∧ AtRest after ∧
      after.shared.admission = none ∧ ∀ id, after.guards id = none := by
  have any : Transition.Reaches (router config Tid) (fun _ _ => True) state := reached.mono fun _ _ _ => trivial
  obtain ⟨events,after,trace,rests⟩ := Transition.leads_to_rest AtRest (fun s => s.work config.catalog.entries.length)
    (fun s reached busy => somebody_steps (guarded reached) (admits reached) busy) any
  have reached' := (trace.mono fun _ _ _ => trivial).reaches any
  refine ⟨events,after,trace,rests,?_,fun id => ?_⟩
  · by_contra held
    obtain ⟨t,is⟩ := Option.ne_none_iff_exists'.mp held
    have admits := admits reached' t is
    rw [rests t] at admits
    cases admits
  · by_contra held
    obtain ⟨t,is⟩ := Option.ne_none_iff_exists'.mp held
    have needs := guarded reached' id t is
    rw [rests t] at needs
    cases needs

/-! ## What is left at rest -/

/-- The children in the slots, in catalog order. -/
def slotted (config : Config) (slots : Table Child) : List Child :=
  Slots.snapshot config.catalog (fun _ held => held.child) slots

/-- What `loaded` lists: the entries whose slots hold a child. -/
def loadedIds (config : Config) (slots : Table Child) : List String :=
  Slots.snapshot config.catalog (fun entry _ => entry.id) slots

theorem loadedIds_nodup (config : Config) (slots : Table Child) : (loadedIds config slots).Nodup := by
  have as_ids : loadedIds config slots = config.ids.filterMap fun id => (slots id).map fun _ => id := by
    rw [loadedIds,Slots.snapshot,Config.ids,List.filterMap_map]
    rfl
  rw [as_ids]
  refine config.catalog.distinct.filterMap fun a b id first second => ?_
  obtain ⟨_,_,rfl⟩ := Option.map_eq_some_iff.mp first
  obtain ⟨_,_,same⟩ := Option.map_eq_some_iff.mp second
  exact same.symm

omit [Fintype Tid] [DecidableEq Tid] in
theorem slotted_ids (alone : OneAtATime config state) :
    (slotted config state.shared.slots).map Child.id = loadedIds config state.shared.slots := by
  rw [slotted,loadedIds,Slots.snapshot,Slots.snapshot,List.map_filterMap]
  refine List.filterMap_congr fun entry _ => ?_
  cases there : state.shared.slots entry.id with
  | none => rfl
  | some held => simp [(alone.home entry.id held there).1]

/-- At rest nothing is left behind: the processes that were started and have not
    been reaped are those in the slots, one for each entry that is listed as
    loaded. -/
theorem at_rest_loaded {allowed : State Tid → Event Tid → Prop} (reached : Transition.Reaches (router config Tid) allowed state)
    (rests : AtRest state) : (slotted config state.shared.slots).map Child.id = loadedIds config state.shared.slots ∧
    (slotted config state.shared.slots).Nodup ∧
    ∀ child, child ∈ slotted config state.shared.slots ↔
      state.shared.life child ≠ .Unborn ∧ (state.shared.life child).isReaped = false := by
  have alone := oneAtATime reached
  have counted := counted_reaches reached
  have home (id : String) (held : Loaded Child) (there : state.shared.slots id = some held) := (alone.home id held there).1
  have ids : (slotted config state.shared.slots).map Child.id = loadedIds config state.shared.slots := slotted_ids alone
  refine ⟨ids,?_,fun child => ⟨fun member => ?_,fun ⟨born,kept⟩ => ?_⟩⟩
  · refine List.Nodup.of_map Child.id ?_
    rw [ids]
    exact loadedIds_nodup config state.shared.slots
  · obtain ⟨entry,_,is⟩ := List.mem_filterMap.mp member
    obtain ⟨held,there,rfl⟩ := Option.map_eq_some_iff.mp is
    obtain ⟨_,read,kept⟩ := counted.in_slot home there
    exact ⟨counted.lives.is_born read,kept⟩
  · have slot : inSlot state.shared.slots child ≠ 0 := by
      intro unslotted
      have reaped := counted.gone born unslotted fun t holds => by
        rw [rests t] at holds
        cases holds
      rw [kept] at reaped
      cases reaped
    obtain ⟨held,there,rfl⟩ := inSlot_pos.mp slot
    obtain ⟨entry,known,own⟩ := List.mem_map.mp (alone.home _ held there).2
    refine List.mem_filterMap.mpr ⟨entry,known,?_⟩
    rw [own,there]
    rfl

end States

/-! ## A model that is being served while another request waits -/

/-- One thread serves from the model and another has just asked for it. -/
theorem serving_comes_to_rest : ∃ state : State Bool, Transition.Reaches (router oneModel Bool) (fun _ _ => True) state ∧
    ¬ AtRest state ∧ ∃ events after, Transition.Trace (router oneModel Bool) Finishes state events after ∧ AtRest after ∧
      after.shared.admission = none ∧ ∀ id, after.guards id = none := by
  have passes : ((router oneModel Bool).run (fun _ _ => true) (State.start Bool)
      (spawning false ++ serving 8 false ++ [.Act true (.Ask ⟨model,true⟩)])).any (fun state =>
        (state.jobs false).handed = some ⟨0,"m"⟩) = true := by
    decide +kernel
  obtain ⟨state,reached,checked⟩ := Transition.exists_of_run (fun _ _ _ => trivial) passes
  refine ⟨state,reached,fun rests => ?_,comes_to_rest reached⟩
  have handed : (state.jobs false).handed = some ⟨0,"m"⟩ := of_decide_eq_true checked
  rw [rests false] at handed
  cases handed

/-- The model was served from and let go, and stays loaded. -/
theorem served_at_rest : ∃ state : State Bool, Transition.Reaches (router oneModel Bool) (fun _ _ => True) state ∧ AtRest state ∧
    slotted oneModel state.shared.slots = [⟨0,"m"⟩] ∧ (state.shared.life ⟨0,"m"⟩).isReaped = false := by
  have passes : ((router oneModel Bool).run (fun _ _ => true) (State.start Bool)
      (spawning false ++ serving 8 false ++ leaving false)).any (fun state =>
        (∀ t, (state.jobs t).work 1 = 0) ∧ slotted oneModel state.shared.slots = [⟨0,"m"⟩]) = true := by
    decide +kernel
  obtain ⟨state,reached,checked⟩ := Transition.exists_of_run (fun _ _ _ => trivial) passes
  obtain ⟨done,holds⟩ := of_decide_eq_true checked
  have rests : AtRest state := fun t => idle_of_work (done t)
  have all := ((at_rest_loaded reached rests).2.2 ⟨0,"m"⟩).mp (by rw [holds]; exact List.mem_singleton_self _)
  exact ⟨state,reached,rests,holds,all.2⟩

end Maestro.Threads
