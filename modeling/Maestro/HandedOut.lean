import Maestro.References
import Maestro.LedgerBound

/-!
# A child that was handed out stays in its slot

Without a stop, a slot is emptied only of a child with no other reference, and
filled only when it is empty. So a child that somebody was handed is in its own
entry's slot, has not been reaped, and is counted by every snapshot.
-/
namespace Maestro.Threads
open Slots (Loaded Slot Table)

/-! ## The counts in every reachable state -/

section Reachable
variable {Tid : Type} [Fintype Tid] {config : Config}

/-- A process that exits on its own is neither born nor reaped by it. -/
theorem Counted.dies {s : Shared Tid} {jobs : Tid → Job} (counted : Counted s jobs) {child : Child} {status : String}
    (running : s.life child = .Running) :
    Counted { s with life := Function.update s.life child (.Exited status) } jobs := by
  have other {c : Child} (different : c ≠ child) : Function.update s.life child (.Exited status) c = s.life c :=
    Function.update_of_ne different ..
  have own : Function.update s.life child (.Exited status) child = .Exited status := Function.update_self ..
  refine ⟨counted.count,fun c born => ?_,fun c unborn => ?_,fun c born none_left => ?_,fun c reaped => ?_⟩
  · by_cases this : c = child
    · exact counted.born c (by rw [this,running]; simp)
    · exact counted.born c (other this ▸ born)
  · by_cases this : c = child
    · rw [this] at unborn
      cases own.symm.trans unborn
    · exact counted.unborn c (other this ▸ unborn)
  · by_cases this : c = child
    · have reaped := counted.ended c (by rw [this,running]; simp) none_left
      rw [this,running] at reaped
      cases reaped
    · change Life.isReaped (Function.update s.life child (.Exited status) c) = true
      rw [other this]
      exact counted.ended c (other this ▸ born) none_left
  · by_cases this : c = child
    · rw [this] at reaped
      cases (congrArg Life.isReaped own).symm.trans reaped
    · exact counted.reaped c (other this ▸ reaped)

variable [DecidableEq Tid] {allowed : State Tid → Event Tid → Prop}

theorem counted_reaches {state : State Tid} (reached : Transition.Reaches (router config Tid) allowed state) :
    Counted state.shared state.jobs := by
  refine Transition.Reaches.invariant (P := fun state => Counted state.shared state.jobs) ?_
    (fun before event after reached counted _ steps => ?_) reached
  · refine ⟨fun c => ?_,fun c born => absurd rfl born,fun c _ => rfl,fun c born => absurd rfl born,fun c reaped => ?_⟩
    · have nothing : Holders.held refs (fun _ : Tid => Job.Idle) c = 0 := Holders.held_eq_zero_iff.mpr fun _ => rfl
      change 0 = 0 + Holders.held refs (fun _ : Tid => Job.Idle) c
      rw [nothing]
    · cases reaped
  · have alone := oneAtATime reached
    rcases step_cases steps with ⟨clock,shared,jobs⟩ | ⟨child,status,running,jobs,shared⟩ | ⟨t,input,job,_,ran,jobs⟩
    · rw [shared,jobs]
      exact ⟨counted.count,counted.born,counted.unborn,counted.ended,counted.reaped⟩
    · rw [shared,jobs]
      exact counted.dies running
    · rw [jobs]
      exact counted.step (fun id held there => (alone.home id held there).1) (alone.ready t) ran

end Reachable

/-! ## Without a stop -/

/-- Nobody calls stop. -/
def NoStop {Tid : Type} (_ : State Tid) (event : Event Tid) : Prop := ∀ t order, event ≠ .Act t (.Stop order)

/-- The thread is emptying the slots for a stop, or dropping what it took. -/
def Job.clears : Job → Bool
  | .Clearing _ _ _ | .Stopping _ _ => true
  | _ => false

section Quiet
variable {Tid : Type} {config : Config} {input : Input} {s s' : Shared Tid} {job job' : Job} {t : Tid}

/-- Only a call of stop begins to empty the slots. -/
theorem clears_from (steps : job.step config input s t = some (s',job')) (clears : job'.clears = true) :
    job.clears = true ∨ ∃ order, input = .Stop order := by
  cases step_branch steps with
  | stops order => exact .inr ⟨order,rfl⟩
  | clears | cleared | ends | signals => exact .inl rfl
  | admits =>
    rcases phase_lock steps with ⟨_,next,rfl⟩ | ⟨_,leaves⟩
    · cases clears
    · cases leaves <;> cases clears
  | _ => cases clears

/-- A child with a second reference stays in its slot. -/
theorem stays_slotted (home : ∀ id held, s.slots id = some held → held.child.id = id) (ready : Ready s job)
    (effect : Effect s job s' job') (keeps : job.clears = false) {c : Child} (slotted : inSlot s.slots c = 1)
    (read : 2 ≤ s.strong c) : inSlot s'.slots c = 1 := by
  obtain ⟨held,there,same⟩ := inSlot_pos.mp (by rw [slotted]; exact Nat.one_ne_zero)
  have elsewhere {id : String} {loaded : Loaded Child} (at_id : s.slots id = some loaded) (different : loaded.child ≠ c) :
      c.id ≠ id := by
    intro here
    rw [← here,there] at at_id
    cases at_id
    exact different same
  cases effect with
  | Quiet slots => rw [slots.inSlot,slotted]
  | Clones _ _ _ slots => rw [slots.inSlot,slotted]
  | Drops _ slots => rw [slots,slotted]
  | Takes id loaded at_id slots _ _ _ _ why =>
    have alone : s.strong loaded.child ≤ 1 := by
      rcases why with alone | ⟨called,rest,taken,clears⟩
      · exact alone
      · rw [clears] at keeps
        cases keeps
    have different : loaded.child ≠ c := fun same => by
      rw [same] at alone
      omega
    have left := inSlot_update_none (c := c) at_id (home id loaded at_id)
    rw [one_ne different] at left
    rw [slots]
    omega
  | Buries id loaded at_id alone slots =>
    have different : loaded.child ≠ c := fun same => by
      rw [same] at alone
      omega
    have left := inSlot_update_none (c := c) at_id (home id loaded at_id)
    rw [one_ne different] at left
    rw [slots]
    omega
  | Spawns request second here there spawned =>
    rw [spawned]
    exact slotted
  | Places request loaded here there placed =>
    obtain ⟨free,own⟩ := ready request loaded here
    have filled := inSlot_update_some (c := c) free own
    have most := inSlot_le_one (Function.update s.slots request.entry.id (some loaded)) c
    rw [placed,place_slots]
    omega

/-- What a step hands out is in its slot, or was handed out before. -/
theorem handed_from (home : ∀ id held, s.slots id = some held → held.child.id = id) (ready : Ready s job)
    (effect : Effect s job s' job') {c : Child} (handed : job'.handed = some c) :
    job.handed = some c ∨ inSlot s'.slots c = 1 := by
  cases effect with
  | Quiet _ _ _ _ _ _ same => exact .inl (same ▸ handed)
  | Clones id loaded there slots _ _ _ _ _ _ fresh =>
    rw [fresh] at handed
    cases handed
    right
    rw [slots.inSlot]
    refine inSlot_eq_one ?_ rfl
    rw [home id loaded there]
    exact there
  | Drops _ _ _ _ _ _ _ nothing =>
    rw [nothing] at handed
    cases handed
  | Takes _ _ _ _ _ _ _ _ _ _ nothing =>
    rw [nothing] at handed
    cases handed
  | Buries _ _ _ _ _ _ _ _ _ _ _ nothing =>
    rw [nothing] at handed
    cases handed
  | Spawns _ _ _ there =>
    rw [there] at handed
    cases handed
  | Places request loaded here there placed =>
    obtain ⟨_,own⟩ := ready request loaded here
    rw [there] at handed
    cases handed
    right
    rw [placed,place_slots]
    refine inSlot_eq_one ?_ rfl
    rw [own]
    exact Function.update_self ..

end Quiet

section NoStop
variable {Tid : Type} [DecidableEq Tid] {config : Config}

theorem nobody_clears {state : State Tid} (reached : Transition.Reaches (router config Tid) NoStop state) (t : Tid) :
    (state.jobs t).clears = false := by
  refine Transition.Reaches.invariant (P := fun state => ∀ t, (state.jobs t).clears = false) (fun _ => rfl)
    (fun before event after _ nobody quiet steps u => ?_) reached t
  rcases step_cases steps with ⟨_,_,jobs⟩ | ⟨_,_,_,jobs,_⟩ | ⟨t,input,job,is,ran,jobs⟩
  · rw [jobs]
    exact nobody u
  · rw [jobs]
    exact nobody u
  · rw [jobs]
    by_cases this : u = t
    · subst this
      rw [Function.update_self,Bool.eq_false_iff]
      intro clears
      rcases clears_from ran clears with before | ⟨order,stops⟩
      · rw [nobody u] at before
        cases before
      · exact quiet u order (by rw [is,stops])
    · rw [Function.update_of_ne this]
      exact nobody u

variable [Fintype Tid]

theorem handed_in_slot {state : State Tid} (reached : Transition.Reaches (router config Tid) NoStop state) (t : Tid)
    (c : Child) (handed : (state.jobs t).handed = some c) : inSlot state.shared.slots c = 1 := by
  refine Transition.Reaches.invariant
    (P := fun state => ∀ t c, (state.jobs t).handed = some c → inSlot state.shared.slots c = 1) ?_
    (fun before event after reached slotted quiet steps u c handed => ?_) reached t c handed
  · intro t c handed
    cases handed
  have alone := oneAtATime reached
  have counted := counted_reaches reached
  rcases step_cases steps with ⟨clock,shared,jobs⟩ | ⟨child,status,_,jobs,shared⟩ | ⟨t,input,job,_,ran,jobs⟩
  · rw [jobs] at handed
    rw [shared]
    exact slotted u c handed
  · rw [jobs] at handed
    rw [shared]
    exact slotted u c handed
  have home (id : String) (held : Loaded Child) (there : before.shared.slots id = some held) := (alone.home id held there).1
  have kept (reader : Tid) (was : (before.jobs reader).handed = some c) : inSlot after.shared.slots c = 1 := by
    have here := slotted reader c was
    have read := counted.holder (t := reader) (c := c) (by rw [Job.handed_holds was]; exact List.mem_singleton_self _)
    exact stays_slotted home (alone.ready t) (step_effect ran) (nobody_clears reached t) here (by omega)
  rw [jobs] at handed
  by_cases this : u = t
  · subst this
    rw [Function.update_self] at handed
    rcases handed_from home (alone.ready u) (step_effect ran) handed with was | now
    · exact kept u was
    · exact now
  · rw [Function.update_of_ne this] at handed
    exact kept u handed

/-- With stop never called, whatever the order of the steps: a child that a
    thread was handed and has not dropped is the one in its own entry's slot,
    with a reference beside the slot's, it has not been killed or reaped, and a
    snapshot counts it. -/
theorem handed_out_kept {state : State Tid} (reached : Transition.Reaches (router config Tid) NoStop state) (t : Tid)
    (child : Child) (handed : (state.jobs t).handed = some child) : ∃ held, state.shared.slots child.id = some held ∧
    held.child = child ∧ 1 < state.shared.strong child ∧ (state.shared.life child).isReaped = false ∧
    ∃ entry ∈ config.catalog.entries, entry.id = child.id ∧
      Admission.Loaded.of entry true held.lastUsed held.measured ∈
        Slots.held config.catalog state.shared.strong state.shared.slots := by
  have slotted := handed_in_slot reached t child handed
  have alone := oneAtATime reached
  have counted := counted_reaches reached
  obtain ⟨held,there,same⟩ := inSlot_pos.mp (by rw [slotted]; exact Nat.one_ne_zero)
  have read := counted.holder (t := t) (c := child) (by rw [Job.handed_holds handed]; exact List.mem_singleton_self _)
  obtain ⟨entry,known,own⟩ := List.mem_map.mp (alone.home child.id held there).2
  refine ⟨held,there,same,by omega,counted.slotted (by rw [slotted]; exact Nat.one_ne_zero),entry,known,own,?_⟩
  refine List.mem_filterMap.mpr ⟨entry,known,?_⟩
  have isBusy : Slots.busy state.shared.strong held.child = true := by
    rw [same]
    exact decide_eq_true (by omega)
  rw [own,there]
  simp only [Option.map_some,isBusy]

end NoStop

/-- The event is not a call of stop. -/
def noStop {Tid : Type} (_ : State Tid) : Event Tid → Bool
  | .Act _ (.Stop _) => false
  | _ => true

theorem noStop_spec {Tid : Type} (s : State Tid) (event : Event Tid) (permitted : noStop s event = true) : NoStop s event := by
  rintro t order rfl
  cases permitted

/-- The steps of the reaper, for one entry whose slot is left alone by both
    sweeps. -/
def reaping {Tid : Type} (t : Tid) : List (Event Tid) := [.Reap,.Go,.Go,.Go,.Go,.Go,.Go].map (.Act t)

/-- A reaper that comes long after the idle window leaves a child that is being
    read from. -/
theorem reader_outlasts_window : ∃ state, Transition.Reaches (router oneModel Bool) NoStop state ∧
    (state.jobs false).handed = some ⟨0,"m"⟩ ∧ state.shared.clock = 2 ∧ (∃ held, state.shared.slots "m" = some held ∧
      held.child = ⟨0,"m"⟩) := by
  have passes : ((router oneModel Bool).run noStop (State.start Bool)
      (spawning false ++ serving 8 false ++ [.Tick,.Tick] ++ reaping true)).any (fun state =>
        (state.jobs false).handed = some ⟨0,"m"⟩ ∧ state.shared.clock = 2 ∧
        (state.jobs true).needs = none) = true := by
    decide +kernel
  obtain ⟨state,reached,checked⟩ := Transition.exists_of_run noStop_spec passes
  obtain ⟨handed,late,_⟩ := of_decide_eq_true checked
  obtain ⟨held,there,same,_⟩ := handed_out_kept reached false ⟨0,"m"⟩ handed
  exact ⟨state,reached,handed,late,held,there,same⟩

end Maestro.Threads
