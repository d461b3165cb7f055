import Maestro.HandedOut

/-!
# Whether the room that was freed is free

A process is alive from its start until it is reaped. An admission drops what it
takes out of a slot before it goes on, and so does a sweep that finds a child
exited. The idle sweep drops what it took under no lock at all: in between, an
admission finds the slot empty and starts a process beside one that is alive.
-/
namespace Maestro.Threads
open Slots (Loaded Slot Table)

/-- The process has been started and not yet reaped. -/
def Life.isAlive : Life → Bool
  | .Running | .Exited _ => true
  | .Unborn | .Reaped _ => false

/-- The child that the idle sweep has taken out of its slot and not yet
    dropped. -/
def Job.expels : Job → Option Child
  | .Swept (.Idle _) child _ _ _ => some child
  | _ => none

/-- The request a thread is about to start a process for. -/
def Job.starts : Job → Option Request
  | .Admitting request (.Starting _) => some request
  | _ => none

/-- What an entry's child was expected to hold. -/
def estimate (config : Config) (child : Child) : ℕ := (config.catalog.entry child.id).elim 0 Entry.memoryEstimateMib

/-- Nobody calls stop, and no admission starts a process while the idle sweep
    has yet to drop what it took. -/
def Settled {Tid : Type} (state : State Tid) (event : Event Tid) : Prop :=
  NoStop state event ∧ ∀ t request, (state.jobs t).starts = some request → event = .Act t (.Spawn none) →
    ∀ u, (state.jobs u).expels = none

/-- No entry has two processes alive. Where a process may be started now, what
    is in no slot has been reaped, and the estimates of what is alive leave room
    for one more. -/
structure FreedRoom {Tid : Type} (config : Config) (allowed : State Tid → Event Tid → Prop) (state : State Tid) : Prop where
  single : ∀ a b, (state.shared.life a).isAlive = true → (state.shared.life b).isAlive = true → a.id = b.id → a = b
  freed : ∀ t request, (state.jobs t).starts = some request → allowed state (.Act t (.Spawn none)) →
    ∀ c, state.shared.life c ≠ .Unborn → inSlot state.shared.slots c = 0 → (state.shared.life c).isReaped = true
  within : ∀ t request, (state.jobs t).starts = some request → allowed state (.Act t (.Spawn none)) →
    ∀ limit, config.budget.limitMib = some limit →
    ∀ living : Finset Child, (∀ c ∈ living, (state.shared.life c).isAlive = true) →
      ∑ c ∈ living, estimate config c + request.entry.memoryEstimateMib ≤ limit

/-! ## Who is alive -/

section Lives
variable {Tid : Type} {s s' : Shared Tid} {job job' : Job} {c : Child}

theorem stopped_not_alive (life : Life) : life.stopped.isAlive = false := by
  cases life <;> rfl

theorem alive_iff {life : Life} : life.isAlive = true ↔ life ≠ .Unborn ∧ life.isReaped = false := by
  cases life <;> simp [Life.isAlive,Life.isReaped]

theorem starts_spec {request : Request} (starts : job.starts = some request) :
    ∃ second, job = .Admitting request (.Starting second) := by
  cases job with
  | Admitting other phase =>
    cases phase with
    | Starting second =>
      cases starts
      exact ⟨second,rfl⟩
    | _ => cases starts
  | _ => cases starts

/-- An admission that starts a process was answered with one. -/
theorem starts_input {config : Config} {input : Input} {t : Tid} {request : Request} (starts : job.starts = some request)
    (steps : job.step config input s t = some (s',job')) (goes_on : job'.admits = true) : input = .Spawn none := by
  obtain ⟨second,rfl⟩ := starts_spec starts
  cases input with
  | Spawn failure =>
    cases failure with
    | none => rfl
    | some failure =>
      cases steps
      cases goes_on
  | _ => cases steps

theorem release_life (a : Child) : (s.release a).life c = s.life c ∨ (s.release a).life c = (s.life c).stopped := by
  rw [Shared.release]
  split_ifs
  · by_cases this : c = a
    · subst this
      right
      simp
    · left
      simp [this]
  · exact .inl rfl

/-- A step leaves a process as it is, stops it or starts it. -/
theorem Effect.lives (effect : Effect s job s' job') (c : Child) : s'.life c = s.life c ∨ s'.life c = (s.life c).stopped ∨
    ∃ request, job.starts = some request ∧ c = s.fresh request.entry.id ∧ job'.admits = true := by
  have dropped {a : Child} (life : s'.life = (s.release a).life) : s'.life c = s.life c ∨ s'.life c = (s.life c).stopped := by
    rw [life]
    exact release_life a
  cases effect with
  | Quiet _ _ life => exact .inl (by rw [life])
  | Clones _ _ _ _ _ life => exact .inl (by rw [life])
  | Drops child _ _ life =>
    rcases dropped life with same | stopped
    · exact .inl same
    · exact .inr (.inl stopped)
  | Takes id loaded _ _ _ life =>
    rcases life with ⟨same,_⟩ | ⟨waited,_⟩
    · exact .inl (by rw [same])
    · by_cases this : c = loaded.child
      · subst this
        right
        left
        simp [waited]
      · left
        simp [waited,this]
  | Buries _ loaded _ _ _ _ life =>
    rcases dropped life with same | stopped
    · exact .inl same
    · exact .inr (.inl stopped)
  | Spawns request second here there spawned =>
    by_cases this : c = s.fresh request.entry.id
    · exact .inr (.inr ⟨request,by rw [here]; rfl,this,by rw [there]; rfl⟩)
    · left
      rw [spawned]
      exact Function.update_of_ne this ..
  | Places request loaded _ _ placed =>
    rw [placed,Shared.place]
    cases s.slots request.entry.id with
    | none => exact .inl rfl
    | some held =>
      rcases release_life (s := (s.clone loaded.child).put request.entry.id (some loaded)) held.child with same | stopped
      · exact .inl same
      · exact .inr (.inl stopped)

/-- What is alive was alive, or is the process that was started. -/
theorem Effect.alive_from (effect : Effect s job s' job') (alive : (s'.life c).isAlive = true) :
    (s.life c).isAlive = true ∨
    ∃ request, job.starts = some request ∧ c = s.fresh request.entry.id ∧ job'.admits = true := by
  rcases effect.lives c with same | stopped | started
  · left
    rwa [same] at alive
  · rw [stopped,stopped_not_alive] at alive
    cases alive
  · exact .inr started

/-- Whoever holds a child was handed it, is admitting it, is a sweep that took
    it, or is a stop. -/
theorem holds_cases (holds : c ∈ job.holds) : job.handed = some c ∨ job.admits = true ∨ job.mourns = some c ∨
    job.expels = some c ∨ job.clears = true := by
  cases job with
  | Admitting request phase => exact .inr (.inl rfl)
  | Serving request child =>
    obtain rfl := List.mem_singleton.mp holds
    exact .inl rfl
  | Touching request child =>
    obtain rfl := List.mem_singleton.mp holds
    exact .inl rfl
  | Dropping request child =>
    obtain rfl := List.mem_singleton.mp holds
    exact .inl rfl
  | Swept kind child said rest named =>
    obtain rfl := List.mem_singleton.mp holds
    cases kind with
    | Exited => exact .inr (.inr (.inl rfl))
    | Idle now => exact .inr (.inr (.inr (.inl rfl)))
  | Clearing called rest taken => exact .inr (.inr (.inr (.inr rfl)))
  | Stopping called rest => exact .inr (.inr (.inr (.inr rfl)))
  | _ => cases holds

theorem mourns_not_handed (mourns : job.mourns = some c) : job.handed = none := by
  cases job with
  | Swept kind child said rest named => rfl
  | _ => cases mourns

end Lives

section Mourned
variable {Tid : Type} [Fintype Tid] {s s' : Shared Tid} {jobs : Tid → Job} {job job' : Job} {c : Child}

/-- What has been reaped stays reaped. -/
theorem Counted.reaped_after (counted : Counted s jobs) (effect : Effect s job s' job')
    (reaped : (s.life c).isReaped = true) : (s'.life c).isReaped = true := by
  rcases effect.lives c with same | stopped | ⟨request,_,fresh,_⟩
  · rwa [same]
  · rw [stopped]
    refine stopped_reaped ?_
    intro unborn
    rw [unborn] at reaped
    cases reaped
  · rw [fresh,counted.lives.fresh] at reaped
    cases reaped

/-- A sweep that finds a child exited has it reaped by asking. -/
theorem Counted.mourned_after (counted : Counted s jobs) (effect : Effect s job s' job') (mourns : job'.mourns = some c) :
    (s'.life c).isReaped = true := by
  cases effect with
  | Quiet _ _ _ _ _ _ _ nobody =>
    rw [nobody] at mourns
    cases mourns
  | Clones _ _ _ _ _ _ _ _ _ _ handed =>
    rw [mourns_not_handed mourns] at handed
    cases handed
  | Drops _ _ _ _ _ _ _ _ nobody =>
    rw [nobody] at mourns
    cases mourns
  | Takes id loaded _ _ _ life =>
    rcases life with ⟨_,nobody⟩ | ⟨waited,alone,finds⟩
    · rw [nobody] at mourns
      cases mourns
    · rw [finds] at mourns
      obtain rfl := Option.some.inj mourns
      have born : s.life loaded.child ≠ .Unborn := by
        intro unborn
        have := counted.unborn _ unborn
        omega
      rw [waited,Function.update_self]
      exact stopped_reaped born
  | Buries _ _ _ _ _ _ _ _ _ _ holds =>
    rw [mourns_holds mourns] at holds
    cases holds
  | Spawns _ _ _ there =>
    rw [there] at mourns
    cases mourns
  | Places _ _ _ there =>
    rw [there] at mourns
    cases mourns

end Mourned

/-! ## What is alive where a process is started -/

section Spawning
variable {Tid : Type} [DecidableEq Tid] [Fintype Tid] {config : Config} {allowed : State Tid → Event Tid → Prop}

theorem mourned {state : State Tid} (reached : Transition.Reaches (router config Tid) allowed state) (t : Tid) (c : Child)
    (mourns : (state.jobs t).mourns = some c) : (state.shared.life c).isReaped = true := by
  refine Transition.Reaches.invariant
    (P := fun state => ∀ t c, (state.jobs t).mourns = some c → (state.shared.life c).isReaped = true) ?_
    (fun before event after reached all _ steps u c mourns => ?_) reached t c mourns
  · intro t c mourns
    cases mourns
  have counted := counted_reaches reached
  rcases step_cases steps with ⟨clock,shared,jobs⟩ | ⟨child,status,running,jobs,shared⟩ | ⟨t,input,job,_,ran,jobs⟩
  · rw [jobs] at mourns
    rw [shared]
    exact all u c mourns
  · rw [jobs] at mourns
    have reaped := all u c mourns
    have different : c ≠ child := by
      intro same
      rw [same,running] at reaped
      cases reaped
    rw [shared]
    simpa [different] using reaped
  · rw [jobs] at mourns
    by_cases this : u = t
    · subst this
      rw [Function.update_self] at mourns
      exact counted.mourned_after (step_effect ran) mourns
    · rw [Function.update_of_ne this] at mourns
      exact counted.reaped_after (step_effect ran) (all u c mourns)

/-- Without a stop, and with no child on its way out of the idle sweep, all that
    is alive where a process is started is in its slot. -/
theorem slotted_of_alive {state : State Tid} (reached : Transition.Reaches (router config Tid) NoStop state) {t : Tid}
    {request : Request} (starts : (state.jobs t).starts = some request) (quiet : ∀ u, (state.jobs u).expels = none)
    {c : Child} (alive : (state.shared.life c).isAlive = true) : inSlot state.shared.slots c = 1 := by
  obtain ⟨born,unreaped⟩ := alive_iff.mp alive
  obtain ⟨second,starting⟩ := starts_spec starts
  have most := inSlot_le_one state.shared.slots c
  by_contra unslotted
  have reaped := (counted_reaches reached).gone born (by omega) ?_
  · rw [unreaped] at reaped
    cases reaped
  intro u holds
  rcases holds_cases holds with handed | admits | mourns | expels | clears
  · exact unslotted (handed_in_slot reached u c handed)
  · have own : u = t := (oneAtATime reached).unique admits (by rw [starting]; rfl)
    rw [own,starting] at holds
    cases holds
  · rw [mourned reached u c mourns] at unreaped
    cases unreaped
  · rw [quiet u] at expels
    cases expels
  · rw [nobody_clears reached u] at clears
    cases clears

/-- Two processes of one entry are never alive together. -/
theorem single_alive {state : State Tid} (reached : Transition.Reaches (router config Tid) Settled state) (a b : Child)
    (a_alive : (state.shared.life a).isAlive = true) (b_alive : (state.shared.life b).isAlive = true)
    (same : a.id = b.id) : a = b := by
  refine Transition.Reaches.invariant
    (P := fun state => ∀ a b, (state.shared.life a).isAlive = true → (state.shared.life b).isAlive = true →
      a.id = b.id → a = b) ?_
    (fun before event after reached single settled steps a b a_alive b_alive same => ?_) reached a b a_alive b_alive same
  · intro a b a_alive
    cases a_alive
  rcases step_cases steps with ⟨clock,shared,_⟩ | ⟨child,status,running,_,shared⟩ | ⟨t,input,job,is,ran,_⟩
  · rw [shared] at a_alive b_alive
    exact single a b a_alive b_alive same
  · have was {c : Child} (alive : (after.shared.life c).isAlive = true) : (before.shared.life c).isAlive = true := by
      by_cases this : c = child
      · rw [this,running]
        rfl
      · rw [shared] at alive
        simpa [this] using alive
    exact single a b (was a_alive) (was b_alive) same
  · have quietly := reached.mono fun _ _ settled => settled.1
    have effect := step_effect ran
    -- A process that is started finds nothing alive for its entry: what is alive is in its slot, which is empty.
    have first {request : Request} (starts : (before.jobs t).starts = some request) (goes_on : job.admits = true) {c : Child}
        (alive : (before.shared.life c).isAlive = true) : c.id ≠ request.entry.id := by
      obtain ⟨second,starting⟩ := starts_spec starts
      intro own
      have quiet : ∀ u, (before.jobs u).expels = none := by
        refine settled.2 t request starts ?_
        rw [is,starts_input starts ran goes_on]
      have slotted := slotted_of_alive quietly starts quiet alive
      obtain ⟨held,there,_⟩ := inSlot_pos.mp (by rw [slotted]; exact Nat.one_ne_zero)
      have empty := ((oneAtATime reached).sound t request _ starting).1
      rw [own,empty] at there
      cases there
    rcases effect.alive_from a_alive with a_was | ⟨request,starts,rfl,goes_on⟩ <;>
      rcases effect.alive_from b_alive with b_was | ⟨other,again,rfl,goes_on⟩
    · exact single a b a_was b_was same
    · exact absurd same (first again goes_on a_was)
    · exact absurd same.symm (first starts goes_on b_was)
    · rw [starts] at again
      cases again
      rfl

end Spawning

/-! ## What is alive in the ledger -/

/-- What sits in places of its own weighs no more than there is room for in all
    the places. -/
theorem sum_le_of_places {C K : Type} [DecidableEq K] {living : Finset C} (place : C → K) {places : List K}
    (different : places.Nodup) (weight : C → ℕ) (room : K → ℕ) (inside : ∀ c ∈ living, place c ∈ places)
    (apart : ∀ a ∈ living, ∀ b ∈ living, place a = place b → a = b) (fits : ∀ c ∈ living, weight c ≤ room (place c)) :
    ∑ c ∈ living, weight c ≤ (places.map room).sum := by
  calc ∑ c ∈ living, weight c ≤ ∑ c ∈ living, room (place c) := Finset.sum_le_sum fits
    _ = ∑ k ∈ living.image place, room k := (Finset.sum_image apart).symm
    _ ≤ ∑ k ∈ places.toFinset, room k := by
      refine Finset.sum_le_sum_of_subset ?_
      intro k member
      obtain ⟨c,living,rfl⟩ := Finset.mem_image.mp member
      simpa using inside c living
    _ = (places.map room).sum := List.sum_toFinset room different

section Estimates
variable {Tid : Type} {config : Config} {state : State Tid}

/-- The estimates of children that are each in a slot are in the ledger. -/
theorem estimates_le_ledger (alone : OneAtATime config state) {living : Finset Child}
    (slotted : ∀ c ∈ living, inSlot state.shared.slots c = 1) :
    ∑ c ∈ living, estimate config c ≤ ledger config.catalog.entries state.shared.slots [] := by
  have at_home (c : Child) (member : c ∈ living) : ∃ held, state.shared.slots c.id = some held ∧ held.child = c :=
    inSlot_pos.mp (by rw [slotted c member]; exact Nat.one_ne_zero)
  refine (sum_le_of_places Child.id config.catalog.distinct (estimate config)
    (fun id => (config.catalog.entry id).elim 0 fun entry => slotCharge entry (state.shared.slots id)) ?_ ?_ ?_).trans
    (le_of_eq ?_)
  · intro c member
    obtain ⟨held,there,_⟩ := at_home c member
    exact (alone.home c.id held there).2
  · intro a a_in b b_in same
    obtain ⟨held,there,rfl⟩ := at_home a a_in
    obtain ⟨other,again,rfl⟩ := at_home b b_in
    rw [same,again] at there
    cases there
    rfl
  · intro c member
    obtain ⟨held,there,same⟩ := at_home c member
    rw [estimate,there]
    cases config.catalog.entry c.id with
    | none => exact Nat.zero_le _
    | some entry => exact charge_ge entry held
  · rw [List.map_map,ledger]
    refine congrArg List.sum (List.map_congr_left fun entry known => ?_)
    simp [config.catalog.entry_of_mem known]

end Estimates

section Freed
variable {Tid : Type} [DecidableEq Tid] [Fintype Tid] {config : Config}

/-- With stop never called, in every run in which no process is started while
    the idle sweep has yet to drop what it took, freed room is really free. -/
theorem freed_room {state : State Tid} (reached : Transition.Reaches (router config Tid) Settled state) :
    FreedRoom config Settled state := by
  have quietly := reached.mono fun _ _ settled => settled.1
  have alone := oneAtATime reached
  refine ⟨single_alive reached,fun t request starts settled c born unslotted => ?_,
    fun t request starts settled limit is living alive => ?_⟩
  · have quiet := settled.2 t request starts rfl
    by_contra unreaped
    have alive : (state.shared.life c).isAlive = true := alive_iff.mpr ⟨born,by simpa using unreaped⟩
    have slotted := slotted_of_alive quietly starts quiet alive
    omega
  · have quiet := settled.2 t request starts rfl
    obtain ⟨second,starting⟩ := starts_spec starts
    have room := (alone.sound t request _ starting).2 limit is
    have counted := estimates_le_ledger alone fun c member => slotted_of_alive quietly starts quiet (alive c member)
    omega

end Freed

/-! ## The idle sweep and an admission -/

section Scenario
variable {Tid : Type}

/-- From the end of an answer until its child is let go. -/
def leaving (t : Tid) : List (Event Tid) := [.Go,.Go,.Go,.Go].map (.Act t)

/-- A model is served from and let go, its window passes, and the reaper takes
    it out of its slot. -/
def expelling (t reaper : Tid) : List (Event Tid) :=
  spawning t ++ serving 8 t ++ leaving t ++ [.Tick,.Tick] ++ reaping reaper ++ [.Go,.Go].map (.Act reaper)

/-- The event keeps freed room free. -/
def settled [Fintype Tid] (s : State Tid) : Event Tid → Bool
  | .Act _ (.Stop _) => false
  | .Act t (.Spawn none) => (s.jobs t).starts.isNone || decide (∀ u, (s.jobs u).expels = none)
  | _ => true

theorem settled_spec [Fintype Tid] (s : State Tid) (event : Event Tid) (permitted : settled s event = true) :
    Settled s event := by
  constructor
  · rintro t order rfl
    cases permitted
  · rintro t request starts rfl
    simpa [settled,starts] using permitted

end Scenario

/-- Once the sweep has dropped the child, the next process finds it reaped. -/
theorem dropped_before_start : ∃ state, Transition.Reaches (router oneModel Bool) Settled state ∧
    (state.jobs false).starts = some ⟨model,true⟩ ∧ state.shared.life ⟨0,"m"⟩ ≠ .Unborn ∧
    inSlot state.shared.slots ⟨0,"m"⟩ = 0 ∧ (state.shared.life ⟨0,"m"⟩).isReaped = true := by
  have passes : ((router oneModel Bool).run settled (State.start Bool)
      (expelling false true ++ [.Act true .Go] ++ (spawning false).dropLast)).any (fun state =>
        (state.jobs false).starts = some ⟨model,true⟩ ∧ (∀ u, (state.jobs u).expels = none) ∧
        state.shared.life ⟨0,"m"⟩ ≠ .Unborn ∧ inSlot state.shared.slots ⟨0,"m"⟩ = 0) = true := by
    decide +kernel
  obtain ⟨state,reached,checked⟩ := Transition.exists_of_run settled_spec passes
  obtain ⟨starts,quiet,born,unslotted⟩ := of_decide_eq_true checked
  refine ⟨state,reached,starts,born,unslotted,?_⟩
  refine (freed_room reached).freed false ⟨model,true⟩ starts ⟨?_,fun _ _ _ _ => quiet⟩ ⟨0,"m"⟩ born unslotted
  intro t order same
  cases same

/-- While the sweep holds the child it took, an admission finds the slot empty
    and starts a second process for the entry. -/
theorem started_beside_swept : ∃ before after, Transition.Reaches (router oneModel Bool) NoStop before ∧
    ¬ FreedRoom oneModel NoStop before ∧ before.step oneModel (.Act false (.Spawn none)) = some after ∧
    (after.shared.life ⟨0,"m"⟩).isAlive = true ∧ (after.shared.life ⟨1,"m"⟩).isAlive = true := by
  have passes : ((router oneModel Bool).run noStop (State.start Bool)
      (expelling false true ++ (spawning false).dropLast)).any (fun state =>
        (state.jobs false).starts = some ⟨model,true⟩ ∧ state.shared.life ⟨0,"m"⟩ = .Running ∧
        inSlot state.shared.slots ⟨0,"m"⟩ = 0 ∧
        (state.step oneModel (.Act false (.Spawn none))).any fun after =>
          (after.shared.life ⟨0,"m"⟩).isAlive && (after.shared.life ⟨1,"m"⟩).isAlive) = true := by
    decide +kernel
  obtain ⟨before,reached,checked⟩ := Transition.exists_of_run noStop_spec passes
  obtain ⟨starts,running,unslotted,spawned⟩ := of_decide_eq_true checked
  obtain ⟨after,steps,alive⟩ := (Option.any_eq_true _ _).mp spawned
  obtain ⟨first,second⟩ := Bool.and_eq_true_iff.mp alive
  refine ⟨before,after,reached,?_,steps,first,second⟩
  intro room
  have reaped := room.freed false ⟨model,true⟩ starts (fun t order same => by cases same) ⟨0,"m"⟩ (by simp [running]) unslotted
  rw [running] at reaped
  cases reaped

end Maestro.Threads
