import Maestro.Ledger

/-!
# One admission at a time

Whoever is admitting holds the admission lock, and the slot of the entry it
admits stays empty from the check under the lock until its child is placed. What
a phase of an admission relies on survives every step of every other thread.
-/
namespace Maestro.Threads
open Slots (Loaded Slot Table)

/-! ## What a step of the system is -/

section Moves
variable {Tid : Type} [DecidableEq Tid] {config : Config} {before after : State Tid} {event : Event Tid}

/-- Time passes or a lock is taken; a process exits; or a thread takes a step of
    its own. -/
theorem step_cases (steps : before.step config event = some after) :
    (∃ clock, after.shared = { before.shared with clock := clock } ∧ after.jobs = before.jobs) ∨
    (∃ child status, before.shared.life child = .Running ∧ after.jobs = before.jobs ∧
      after.shared = { before.shared with life := Function.update before.shared.life child (.Exited status) }) ∨
    ∃ t input job, event = .Act t input ∧ (before.jobs t).step config input before.shared t = some (after.shared,job) ∧
      after.jobs = Function.update before.jobs t job := by
  cases event with
  | Tick =>
    cases steps
    exact .inl ⟨_,rfl,rfl⟩
  | Dies child status =>
    simp only [State.step] at steps
    split_ifs at steps with running
    cases steps
    exact .inr (.inl ⟨child,status,running,rfl,rfl⟩)
  | Act t input =>
    simp only [State.step,State.act] at steps
    split at steps
    · obtain ⟨⟨shared,job⟩,ran,rfl⟩ := Option.map_eq_some_iff.mp steps
      exact .inr (.inr ⟨t,input,job,rfl,ran,rfl⟩)
    · split at steps
      · cases steps
        exact .inl ⟨before.shared.clock,rfl,rfl⟩
      · split_ifs at steps
        obtain ⟨advanced,advances,rfl⟩ := Option.map_eq_some_iff.mp steps
        obtain ⟨⟨shared,job⟩,ran,rfl⟩ := Option.map_eq_some_iff.mp advances
        exact .inr (.inr ⟨t,input,job,rfl,ran,rfl⟩)

end Moves

/-! ## The admission lock -/

def Job.admits : Job → Bool
  | .Admitting _ _ => true
  | _ => false

/-- The request a thread has not got a child for yet. -/
def Job.asks : Job → Option Request
  | .Running request | .Queued request | .Admitting request _ => some request
  | _ => none

theorem not_admits {job : Job} (done : job.asks = none) : job.admits = false := by
  cases job with
  | Admitting request phase => cases done
  | _ => rfl

section Lock
variable {Tid : Type} {config : Config} {input : Input} {s s' : Shared Tid} {job job' : Job} {t : Tid}

/-- What a step does to the admission lock: nothing, take it when it is free,
    or release it. A request is for an entry of the catalog from its start. -/
inductive Locks (config : Config) (s : Shared Tid) (job : Job) (t : Tid) (s' : Shared Tid) (job' : Job) : Prop
  | Keeps (same : s'.admission = s.admission) (admits : job'.admits = job.admits)
      (asks : ∀ request, job'.asks = some request → job.asks = some request ∨ request.entry ∈ config.catalog.entries)
  | Takes (request : Request) (free : s.admission = none) (taken : s'.admission = some t) (queued : job = .Queued request)
      (rechecks : job' = .Admitting request .Rechecking)
  | Releases (admitted : job.admits = true) (released : s'.admission = none) (ends : job'.asks = none)

theorem running_admission (self : Shared Tid) (id : String) : (self.running id).2.admission = self.admission := by
  rcases running_cases self id with ⟨_,is⟩ | ⟨_,_,_,is⟩ | ⟨_,_,is⟩ <;> rw [is] <;> rfl

theorem place_admission (self : Shared Tid) (id : String) (loaded : Loaded Child) :
    (self.place id loaded).admission = self.admission := by
  rw [Shared.place]
  cases self.slots id <;> rfl

theorem place_slots (self : Shared Tid) (id : String) (loaded : Loaded Child) :
    (self.place id loaded).slots = Function.update self.slots id (some loaded) := by
  rw [Shared.place]
  cases self.slots id <;> rfl

/-- How an admission ends: it panics, fails, or hands out a child. -/
inductive Leaves (request : Request) (phase : Phase) : Job → Prop
  | Panics : Leaves request phase .Idle
  | Fails (failure : Failure) : Leaves request phase (.Failed request failure)
  | Serves (child : Child) (here : phase = .Placed child) : Leaves request phase (.Serving request child)

theorem Leaves.asks {request : Request} {phase : Phase} (leaves : Leaves request phase job) : job.asks = none := by
  cases leaves <;> rfl

theorem running_keeps_lock {id : String} {found : Option Child} (ran : s.running id = (found,s')) : s'.admission = s.admission := by
  have keeps := running_admission s id
  rw [ran] at keeps
  exact keeps

/-- An admission goes on under the lock or releases it. -/
theorem phase_lock {request : Request} {phase : Phase} (steps : phase.step config input s request = some (s',job')) :
    (s'.admission = s.admission ∧ ∃ next, job' = .Admitting request next) ∨
    (s'.admission = none ∧ Leaves request phase job') := by
  cases phase_branch steps with
  | finds _ child _ ran => exact .inl ⟨running_keeps_lock ran,_,rfl⟩
  | misses _ _ ran => exact .inl ⟨running_keeps_lock ran,_,rfl⟩
  | unresolved failure => exact .inr ⟨rfl,.Fails failure⟩
  | panics => exact .inr ⟨rfl,.Panics⟩
  | fails _ _ _ failure => exact .inr ⟨rfl,.Fails failure⟩
  | unspawned _ failure => exact .inr ⟨rfl,.Fails failure⟩
  | abandons _ _ failure => exact .inr ⟨rfl,.Fails failure⟩
  | places _ loaded => exact .inl ⟨place_admission ..,_,rfl⟩
  | serves _ child => exact .inr ⟨rfl,.Serves child rfl⟩
  | _ => exact .inl ⟨rfl,_,rfl⟩

theorem Locks.quiet (same : s'.admission = s.admission) (before : job.admits = false) (done : job'.asks = none) :
    Locks config s job t s' job' :=
  .Keeps same ((not_admits done).trans before.symm) fun request is => (by rw [done] at is; cases is)

/-- Only a queued request and an admission touch the lock. -/
theorem step_lock (steps : job.step config input s t = some (s',job')) : Locks config s job t s' job' := by
  cases step_branch steps with
  | asks request known =>
    refine .Keeps rfl rfl fun other is => ?_
    cases is
    exact .inr known
  | finds _ request child _ ran => exact .quiet (running_keeps_lock ran) rfl rfl
  | misses _ request _ ran => exact .Keeps (running_keeps_lock ran) rfl fun other is => .inl is
  | locks _ request free => exact .Takes request free rfl rfl rfl
  | admits _ request phase =>
    rcases phase_lock steps with ⟨same,next,rfl⟩ | ⟨released,ends⟩
    · exact .Keeps same rfl fun other is => .inl is
    · exact .Releases rfl released ends.asks
  | _ => exact .quiet rfl rfl rfl

end Lock

/-! ## What a phase relies on -/

/-- Past the check under the lock the entry's own slot is empty. Once the slots
    have been weighed there is room in the ledger with what is still to be
    unloaded gone, and a process that was started is the entry's own. -/
def Sound (config : Config) (entry : Entry) (slots : Table Child) : Phase → Prop
  | .Rechecking | .Placed _ => True
  | .Resolving | .Asking => slots entry.id = none
  | .Weighing _ rest seen =>
    slots entry.id = none ∧ ∃ read, config.catalog.entries = read ++ rest ∧ Seen slots entry.id read seen
  | .Unloading _ rest | .Ending _ _ rest => slots entry.id = none ∧ Room config entry slots rest
  | .Turning decision blocker =>
    slots entry.id = none ∧ ∀ isExpired, MakeRoom.turn entry.id decision blocker config.wait isExpired = .Room →
      Room config entry slots []
  | .Starting _ => slots entry.id = none ∧ Room config entry slots []
  | .Loading child _ _ | .Abandoning child _ _ | .Measuring child =>
    slots entry.id = none ∧ Room config entry slots [] ∧ child.id = entry.id
  | .Placing loaded => slots entry.id = none ∧ Room config entry slots [] ∧ loaded.child.id = entry.id

section Phases
variable {Tid : Type} {config : Config} {input : Input} {s s' : Shared Tid} {request : Request} {phase : Phase}

/-- Emptied slots take nothing away from an admission. -/
theorem Sound.shrinks {entry : Entry} {slots after : Table Child} (shrinks : Shrinks slots after)
    (sound : Sound config entry slots phase) : Sound config entry after phase := by
  cases phase with
  | Rechecking => trivial
  | Placed child => trivial
  | Resolving => exact shrinks.empty sound
  | Asking => exact shrinks.empty sound
  | Weighing free rest seen =>
    obtain ⟨empty,read,apart,is⟩ := sound
    exact ⟨shrinks.empty empty,read,apart,is.shrinks shrinks⟩
  | Unloading named rest => exact ⟨shrinks.empty sound.1,sound.2.shrinks shrinks⟩
  | Ending child named rest => exact ⟨shrinks.empty sound.1,sound.2.shrinks shrinks⟩
  | Turning decision blocker => exact ⟨shrinks.empty sound.1,fun isExpired room => (sound.2 isExpired room).shrinks shrinks⟩
  | Starting second => exact ⟨shrinks.empty sound.1,sound.2.shrinks shrinks⟩
  | Loading child everConnected second => exact ⟨shrinks.empty sound.1,sound.2.1.shrinks shrinks,sound.2.2⟩
  | Abandoning child failure again => exact ⟨shrinks.empty sound.1,sound.2.1.shrinks shrinks,sound.2.2⟩
  | Measuring child => exact ⟨shrinks.empty sound.1,sound.2.1.shrinks shrinks,sound.2.2⟩
  | Placing loaded => exact ⟨shrinks.empty sound.1,sound.2.1.shrinks shrinks,sound.2.2⟩

/-- Where no child is found running the slot is left empty. -/
theorem running_none_slot {self shared : Shared Tid} {id : String} (ran : self.running id = (none,shared)) :
    shared.slots id = none := by
  rcases running_cases self id with ⟨empty,is⟩ | ⟨_,_,_,is⟩ | ⟨_,_,is⟩ <;> rw [is] at ran <;> cases ran
  · exact empty
  · exact Function.update_self ..

/-- A decision on what has been seen either makes room at once or names what
    has to go first. -/
theorem sound_of_decision {entry : Entry} {slots : Table Child} {free : Option ℕ} {seen : List Admission.Loaded}
    {decision : Admission.Decision} (empty : slots entry.id = none) (is : Seen slots entry.id config.catalog.entries seen)
    (decided : config.budget.admit seen (.of entry) free = some decision) (other : ∀ ids, decision ≠ .Unload ids) :
    Sound config entry slots (.Turning decision none) := by
  refine ⟨empty,fun isExpired room => ?_⟩
  cases decision with
  | Fits => exact room_of_fits is decided
  | Unload ids => exact absurd rfl (other ids)
  | Blocked message => cases isExpired <;> cases room
  | Refuse message => cases room

/-- A step of an admission leaves what its next phase relies on. -/
theorem phase_sound {next : Phase} (sound : Sound config request.entry s.slots phase)
    (steps : phase.step config input s request = some (s',.Admitting request next)) :
    Sound config request.entry s'.slots next := by
  cases phase_branch steps with
  | finds => trivial
  | misses _ _ ran => exact running_none_slot ran
  | resolves => exact sound
  | reads reading => exact ⟨sound,[],rfl,.nil⟩
  | weighs _ free entry rest seen =>
    obtain ⟨empty,read,apart,is⟩ := sound
    exact ⟨empty,read ++ [entry],by rw [apart,List.append_assoc]; rfl,is.snoc empty⟩
  | chooses _ free seen ids decided =>
    obtain ⟨empty,read,apart,is⟩ := sound
    rw [List.append_nil] at apart
    rw [← apart] at is
    exact ⟨empty,room_of_unload is decided⟩
  | decides _ free seen decision decided keeps =>
    obtain ⟨empty,read,apart,is⟩ := sound
    rw [List.append_nil] at apart
    rw [← apart] at is
    exact sound_of_decision empty is decided keeps
  | takes _ named rest id held =>
    have shrinks := Shrinks.update_none s.slots id
    exact ⟨shrinks.empty sound.1,(sound.2.shrinks shrinks).unnamed (Function.update_self ..)⟩
  | blocked =>
    refine ⟨sound.1,fun isExpired ends => ?_⟩
    cases isExpired <;> cases ends
  | skips _ _ _ _ gone => exact ⟨sound.1,sound.2.unnamed gone⟩
  | unloaded => exact ⟨sound.1,fun _ _ => sound.2⟩
  | ends => exact sound
  | room _ _ isExpired ends => exact ⟨sound.1,sound.2 isExpired ends⟩
  | sleeps => exact sound.1
  | spawns => exact ⟨sound.1,sound.2,rfl⟩
  | exits => exact sound
  | ready => exact sound
  | late => exact sound
  | polls => exact sound
  | retries => exact ⟨sound.1,sound.2.1⟩
  | measures => exact sound
  | places => trivial

/-- Only the placing of a child fills a slot. -/
theorem step_shrinks {t : Tid} {job job' : Job} (steps : job.step config input s t = some (s',job')) :
    Shrinks s.slots s'.slots ∨ ∃ request loaded, job = .Admitting request (.Placing loaded) ∧
      s' = s.place request.entry.id loaded := by
  cases step_effect steps with
  | Quiet slots => exact .inl slots.shrinks
  | Clones _ _ _ slots => exact .inl slots.shrinks
  | Drops _ slots => exact .inl (by rw [slots]; exact Shrinks.refl _)
  | Takes id _ _ slots => exact .inl (by rw [slots]; exact Shrinks.update_none _ _)
  | Buries id _ _ _ slots => exact .inl (by rw [slots]; exact Shrinks.update_none _ _)
  | Spawns _ _ _ _ spawned => exact .inl (by rw [spawned]; exact Shrinks.refl _)
  | Places request loaded here _ placed => exact .inr ⟨request,loaded,here,placed⟩

end Phases

/-! ## In every reachable state -/

section Reachable
variable {Tid : Type} {config : Config}

/-- What is asked for is in the catalog, whoever admits holds the lock, its
    phase has what it relies on, and a slot holds a child of its own entry. -/
structure OneAtATime (config : Config) (state : State Tid) : Prop where
  known : ∀ t request, (state.jobs t).asks = some request → request.entry ∈ config.catalog.entries
  lock : ∀ t, (state.jobs t).admits = true → state.shared.admission = some t
  sound : ∀ t request phase, state.jobs t = .Admitting request phase →
    Sound config request.entry state.shared.slots phase
  home : ∀ id held, state.shared.slots id = some held → held.child.id = id ∧ id ∈ config.ids

/-- Two threads never admit at once. -/
theorem OneAtATime.unique {state : State Tid} (alone : OneAtATime config state) {t u : Tid}
    (first : (state.jobs t).admits = true) (second : (state.jobs u).admits = true) : t = u := by
  have here := alone.lock t first
  rw [alone.lock u second] at here
  exact (Option.some.inj here).symm

variable [DecidableEq Tid] {allowed : State Tid → Event Tid → Prop}

section After
variable {before : State Tid} {t : Tid} {input : Input} {shared : Shared Tid} {job : Job} (alone : OneAtATime config before)
  (ran : (before.jobs t).step config input before.shared t = some (shared,job))
include alone ran

theorem OneAtATime.known_after (u : Tid) (request : Request) (is : (Function.update before.jobs t job u).asks = some request) :
    request.entry ∈ config.catalog.entries := by
  by_cases this : u = t
  · subst this
    rw [Function.update_self] at is
    cases step_lock ran with
    | Keeps _ _ asks =>
      rcases asks request is with earlier | known
      · exact alone.known u request earlier
      · exact known
    | Takes other _ _ queued rechecks =>
      rw [rechecks] at is
      cases is
      exact alone.known u request (by rw [queued]; rfl)
    | Releases _ _ ends =>
      rw [ends] at is
      cases is
  · rw [Function.update_of_ne this] at is
    exact alone.known u request is

theorem OneAtATime.lock_after (u : Tid) (admits : (Function.update before.jobs t job u).admits = true) :
    shared.admission = some u := by
  by_cases this : u = t
  · subst this
    rw [Function.update_self] at admits
    cases step_lock ran with
    | Keeps same still =>
      rw [same]
      exact alone.lock u (still.symm.trans admits)
    | Takes request free taken => exact taken
    | Releases _ _ ends =>
      rw [not_admits ends] at admits
      cases admits
  · rw [Function.update_of_ne this] at admits
    have held := alone.lock u admits
    cases step_lock ran with
    | Keeps same => rwa [same]
    | Takes request free =>
      rw [free] at held
      cases held
    | Releases admitted => exact absurd (alone.unique admits admitted) this

theorem OneAtATime.sound_after (u : Tid) (request : Request) (phase : Phase)
    (is : Function.update before.jobs t job u = .Admitting request phase) : Sound config request.entry shared.slots phase := by
  by_cases this : u = t
  · subst this
    rw [Function.update_self] at is
    subst is
    cases step_lock ran with
    | Keeps _ still =>
      cases doing : before.jobs u with
      | Admitting old phase =>
        rw [doing] at ran
        rcases phase_lock ran with ⟨_,next,same⟩ | ⟨_,ends⟩
        · cases same
          exact phase_sound (alone.sound u _ _ doing) ran
        · cases ends
      | _ =>
        rw [doing] at still
        cases still
    | Takes _ _ _ _ rechecks =>
      cases rechecks
      trivial
    | Releases _ _ ends => cases ends
  · rw [Function.update_of_ne this] at is
    have sound := alone.sound u request phase is
    rcases step_shrinks ran with shrinks | ⟨other,loaded,doing,_⟩
    · exact sound.shrinks shrinks
    · have both : (before.jobs u).admits = true ∧ (before.jobs t).admits = true := by
        rw [is,doing]
        exact ⟨rfl,rfl⟩
      exact absurd (alone.unique both.1 both.2) this

omit [DecidableEq Tid] in
theorem OneAtATime.home_after (id : String) (held : Loaded Child) (is : shared.slots id = some held) :
    held.child.id = id ∧ id ∈ config.ids := by
  rcases step_shrinks ran with shrinks | ⟨request,loaded,doing,placed⟩
  · obtain ⟨old,was,same,_⟩ := shrinks id held is
    rw [← same]
    exact alone.home id old was
  · rw [placed,place_slots] at is
    by_cases this : id = request.entry.id
    · subst this
      rw [Function.update_self] at is
      cases is
      refine ⟨(alone.sound t request _ doing).2.2,?_⟩
      exact List.mem_map_of_mem (alone.known t request (by rw [doing]; rfl))
    · rw [Function.update_of_ne this] at is
      exact alone.home id held is

end After

theorem OneAtATime.step {before after : State Tid} {event : Event Tid} (alone : OneAtATime config before)
    (steps : before.step config event = some after) : OneAtATime config after := by
  rcases step_cases steps with ⟨clock,shared,jobs⟩ | ⟨child,status,_,jobs,shared⟩ | ⟨t,input,job,_,ran,jobs⟩
  · exact ⟨by rw [jobs]; exact alone.known,by rw [shared,jobs]; exact alone.lock,by rw [shared,jobs]; exact alone.sound,
      by rw [shared]; exact alone.home⟩
  · exact ⟨by rw [jobs]; exact alone.known,by rw [shared,jobs]; exact alone.lock,by rw [shared,jobs]; exact alone.sound,
      by rw [shared]; exact alone.home⟩
  · exact ⟨by rw [jobs]; exact alone.known_after ran,by rw [jobs]; exact alone.lock_after ran,
      by rw [jobs]; exact alone.sound_after ran,alone.home_after ran⟩

theorem oneAtATime {state : State Tid} (reached : Transition.Reaches (router config Tid) allowed state) :
    OneAtATime config state := by
  refine Transition.Reaches.invariant ?_ (fun s e s' _ alone _ steps => alone.step steps) reached
  exact ⟨fun t request is => (by cases is),fun t admits => (by cases admits),fun t request phase is => (by cases is),
    fun id held is => (by cases is)⟩

end Reachable
end Maestro.Threads
