import Maestro.HandedOut

/-!
# The process that is being started

A process belongs to the thread that started it until it is put in its entry's
slot, which stays empty meanwhile: nobody else has a reference to it. Only the
thread that holds the admission lock starts one.
-/
namespace Maestro.Threads
open Slots (Loaded Slot Table)

/-- The process that an admission has started and not yet put in its slot. -/
def Phase.starting : Phase → Option Child
  | .Loading child _ _ | .Abandoning child _ _ | .Measuring child => some child
  | .Placing loaded => some loaded.child
  | _ => none

def Job.starting : Job → Option Child
  | .Admitting _ phase => phase.starting
  | _ => none

section Steps
variable {Tid : Type} {config : Config} {input : Input} {s s' : Shared Tid} {job job' : Job} {t : Tid} {c : Child}

theorem starting_admits (starting : job.starting = some c) : job.admits = true := by
  cases job with
  | Admitting => rfl
  | _ => cases starting

theorem starting_holds (starting : job.starting = some c) : job.holds = [c] := by
  cases job with
  | Admitting request phase =>
    cases phase with
    | Loading => cases starting; rfl
    | Abandoning => cases starting; rfl
    | Measuring => cases starting; rfl
    | Placing => cases starting; rfl
    | _ => cases starting
  | _ => cases starting

/-- What is being started has not been handed out. -/
theorem starting_not_handed (starting : job.starting = some c) : job.handed = none := by
  cases job with
  | Admitting request phase =>
    cases phase with
    | Placed => cases starting
    | _ => rfl
  | _ => cases starting

/-- A process is being started from the step that spawns it on. -/
theorem Branch.starting (branch : Branch config s t input job s' job') (starting : job'.starting = some c) :
    job.starting = some c ∨ ∃ request second, job = .Admitting request (.Starting second) ∧
      s' = s.spawn request.entry.id ∧ c = s.fresh request.entry.id := by
  cases branch with
  | admits _ request phase _ _ branch =>
    cases branch with
    | spawns second =>
      cases starting
      exact .inr ⟨request,second,rfl,rfl,rfl⟩
    | exits | ready | late | polls | measures => exact .inl starting
    | _ => cases starting
  | _ => cases starting

end Steps

/-! ## What every phase keeps -/

section Phases
variable {Tid : Type} [DecidableEq Tid] {config : Config} {allowed : State Tid → Event Tid → Prop} {state : State Tid} {t : Tid}
  {request : Request} {phase : Phase}

/-- What holds of an admission as it begins, and of each phase after the one
    before, holds of every phase. -/
theorem phase_invariant {P : Phase → Prop} (start : P .Rechecking)
    (next : ∀ {before : State Tid} {u : Tid} {input : Input} {s' : Shared Tid} {request : Request} {phase next : Phase},
      allowed before (.Act u input) → PhaseBranch config before.shared request input phase s' (.Admitting request next) →
      P phase → P next)
    (reached : Transition.Reaches (router config Tid) allowed state) (doing : state.jobs t = .Admitting request phase) : P phase := by
  refine Transition.Reaches.invariant (P := fun state => ∀ t request phase, state.jobs t = .Admitting request phase → P phase)
    (fun t request phase doing => (by cases doing)) (fun before event after _ holds may steps u request phase doing => ?_)
    reached t request phase doing
  rcases step_cases steps with ⟨_,_,jobs⟩ | ⟨_,_,_,jobs,_⟩ | ⟨t,input,job,rfl,ran,jobs⟩
  · exact holds u request phase (jobs ▸ doing)
  · exact holds u request phase (jobs ▸ doing)
  rw [jobs] at doing
  by_cases this : u = t
  · subst this
    rw [Function.update_self] at doing
    subst doing
    generalize was : before.jobs u = job at ran
    generalize after.shared = shared at ran
    cases step_branch ran with
    | locks => exact start
    | admits _ _ old _ _ branch =>
      rcases phase_lock ran with ⟨_,_,goes⟩ | ⟨_,leaves⟩
      · cases goes
        exact next may branch (holds u _ old was)
      · cases leaves
  · rw [Function.update_of_ne this] at doing
    exact holds u request phase doing

end Phases

/-! ## In every reachable state -/

section Reachable
variable {Tid : Type} {config : Config} {state : State Tid} {t : Tid} {c : Child}

/-- The slot of an entry whose process is being started is empty. -/
theorem OneAtATime.unplaced (alone : OneAtATime config state) (starting : (state.jobs t).starting = some c) :
    state.shared.slots c.id = none := by
  cases doing : state.jobs t with
  | Admitting request phase =>
    rw [doing] at starting
    have sound := alone.sound t request phase doing
    have own : state.shared.slots request.entry.id = none ∧ c.id = request.entry.id := by
      cases phase with
      | Loading => cases starting; exact ⟨sound.1,sound.2.2⟩
      | Abandoning => cases starting; exact ⟨sound.1,sound.2.2⟩
      | Measuring => cases starting; exact ⟨sound.1,sound.2.2⟩
      | Placing => cases starting; exact ⟨sound.1,sound.2.2⟩
      | _ => cases starting
    rw [own.2]
    exact own.1
  | _ =>
    rw [doing] at starting
    cases starting

theorem OneAtATime.unslotted (alone : OneAtATime config state) (starting : (state.jobs t).starting = some c) :
    inSlot state.shared.slots c = 0 := by
  by_contra slotted
  obtain ⟨held,there,_⟩ := inSlot_pos.mp slotted
  rw [alone.unplaced starting] at there
  cases there

/-- What is in a slot is not being started. -/
theorem OneAtATime.slotted_not_starting (alone : OneAtATime config state) {id : String} {held : Loaded Child}
    (there : state.shared.slots id = some held) : (state.jobs t).starting ≠ some held.child := by
  intro starting
  have empty := alone.unplaced starting
  rw [(alone.home id held there).1,there] at empty
  cases empty

variable [Fintype Tid] [DecidableEq Tid] {allowed : State Tid → Event Tid → Prop}

/-- Whoever starts a process has the only reference to it. -/
def Unshared (state : State Tid) : Prop := ∀ t c, (state.jobs t).starting = some c → state.shared.strong c = 1

omit [DecidableEq Tid] in
/-- A step of another thread leaves the count of what is being started. -/
theorem Unshared.other {before : State Tid} (unshared : Unshared before) (alone : OneAtATime config before)
    (counted : Counted before.shared before.jobs) {u : Tid} {s' : Shared Tid} {job' : Job}
    (effect : Effect before.shared (before.jobs u) s' job') (different : t ≠ u) (starting : (before.jobs t).starting = some c) :
    s'.strong c = 1 := by
  have one_left := unshared t c starting
  have apart {id : String} {loaded : Loaded Child} (there : before.shared.slots id = some loaded) : loaded.child ≠ c := by
    rintro rfl
    exact alone.slotted_not_starting there starting
  have idle (admits : (before.jobs u).admits = true) : False := different (alone.unique (starting_admits starting) admits)
  cases effect with
  | Quiet _ strong => rw [strong,one_left]
  | Clones id loaded there _ strong => rw [strong,clone_strong,one_ne (apart there),one_left]
  | Drops child _ strong _ _ _ holds =>
    have distinct : child ≠ c := by
      rintro rfl
      have both := Holders.add_le_held refs before.jobs different child
      have first : refs (before.jobs t) child ≠ 0 := by
        rw [refs_pos,starting_holds starting]
        exact List.mem_singleton_self _
      have second : refs (before.jobs u) child ≠ 0 := by
        rw [refs_pos,holds]
        exact List.mem_cons_self
      have count := counted.count child
      omega
    rw [strong,release_strong,one_ne distinct,one_left]
  | Takes _ _ _ _ strong => rw [strong,one_left]
  | Buries id loaded there _ _ strong => rw [strong,release_strong,one_ne (apart there),one_left]
  | Spawns request second here => exact (idle (by rw [here]; rfl)).elim
  | Places request loaded here => exact (idle (by rw [here]; rfl)).elim

omit [Fintype Tid] [DecidableEq Tid] in
/-- A step of the thread itself. -/
theorem Unshared.own {before : State Tid} (unshared : Unshared before) {input : Input} {s' : Shared Tid} {job' : Job}
    (ran : (before.jobs t).step config input before.shared t = some (s',job')) (starting : job'.starting = some c) :
    s'.strong c = 1 := by
  rcases (step_branch ran).starting starting with earlier | ⟨request,second,here,spawned,fresh⟩
  · have one_left := unshared t c earlier
    have held := starting_holds earlier
    have still := starting_holds starting
    cases step_effect ran with
    | Quiet _ strong => rw [strong,one_left]
    | Clones _ _ _ _ _ _ _ _ nothing =>
      rw [held] at nothing
      cases nothing
    | Drops child _ _ _ _ _ holds =>
      rw [held,still] at holds
      cases holds
    | Takes _ loaded _ _ strong => rw [strong,one_left]
    | Buries _ _ _ _ _ _ _ _ _ nothing =>
      rw [held] at nothing
      cases nothing
    | Spawns request second here =>
      rw [here] at earlier
      cases earlier
    | Places request loaded _ there =>
      rw [there] at starting
      cases starting
  · rw [spawned,fresh]
    exact Function.update_self ..

theorem unshared (reached : Transition.Reaches (router config Tid) allowed state) : Unshared state := by
  refine Transition.Reaches.invariant (P := Unshared) (fun t c starting => (by cases starting))
    (fun before event after reached unshared _ steps u c starting => ?_) reached
  rcases step_cases steps with ⟨_,shared,jobs⟩ | ⟨_,_,_,jobs,shared⟩ | ⟨t,input,job,_,ran,jobs⟩
  · rw [jobs] at starting
    rw [shared]
    exact unshared u c starting
  · rw [jobs] at starting
    rw [shared]
    exact unshared u c starting
  · rw [jobs] at starting
    by_cases this : u = t
    · subst this
      rw [Function.update_self] at starting
      exact unshared.own ran starting
    · rw [Function.update_of_ne this] at starting
      exact unshared.other (oneAtATime reached) (counted_reaches reached) (step_effect ran) this starting

end Reachable
end Maestro.Threads
