import Maestro.DeadChildren
import Maestro.Refinement

/-!
# What stays loaded

What the store keeps the router keeps. A resident stays in its slot until its
process exits or somebody calls stop; so does every model where there is neither
a limit nor a window, and the device tells nothing.
-/
namespace Maestro.Threads
open Slots (Loaded Slot Table)
open Store (Op Reason)

section Kept
variable {Tid : Type} [Fintype Tid] [DecidableEq Tid] {config : Config} {reasons : Reason → Prop} {allowed : State Tid → Event Tid → Prop}
  {before after : State Tid} {events : List (Event Tid)} {id : String} {held : Loaded Child}

/-- A child that was in a slot is there still, or it had exited, or it exits on
    the way. -/
def StaysUnlessExited (before after : State Tid) (events : List (Event Tid)) (id : String) (child : Child) : Prop :=
  (∃ held, after.shared.slots id = some held ∧ held.child = child) ∨ (∃ status, before.shared.life child = .Exited status) ∨
    ∃ status, .Dies child status ∈ events

/-- What the store keeps stays in its slot. -/
theorem stays_of_keeps (grounds : ∀ state : State Tid, Transition.Reaches (router config Tid) allowed state → Grounds config reasons state)
    (reached : Transition.Reaches (router config Tid) allowed before) (trace : Transition.Trace (router config Tid) allowed before events after)
    (keeps : (storePolicy config reasons).Keeps id) (there : before.shared.slots id = some held) :
    StaysUnlessExited before after events id held.child := by
  obtain ⟨first,early⟩ := reached.trace
  obtain ⟨_,seen⟩ := (explanation grounds).trace .start early
  have sane : Store.Sane before.view := by
    have begins : (State.start Tid).view = Store.State.empty := start_view
    have empty : Store.Sane (State.start Tid).view := by
      rw [begins]
      exact Store.Sane.empty
    exact empty.runs seen.runs
  obtain ⟨_,later⟩ := (explanation grounds).trace reached trace
  have was : before.view.held id = some held.child := by
    change (before.shared.slots id).map Loaded.child = _
    rw [there,Option.map_some]
  rcases Store.kept keeps sane was later.runs with still | gone | exits
  · obtain ⟨other,here,same⟩ := Option.map_eq_some_iff.mp still
    exact .inl ⟨other,here,same⟩
  · refine .inr (.inl ?_)
    -- What is in a slot has not been reaped.
    have kept := ((counted_reaches reached).in_slot (fun id held there => ((oneAtATime reached).home id held there).1) there).2.2
    change (before.shared.life held.child).isGone = true at gone
    cases is : before.shared.life held.child with
    | Exited status => exact ⟨status,rfl⟩
    | Reaped status =>
      rw [is] at kept
      cases kept
    | Unborn =>
      rw [is] at gone
      cases gone
    | Running =>
      rw [is] at gone
      cases gone
  · obtain ⟨_,event,member,accounts⟩ := later.accounted exits
    obtain ⟨status,is⟩ := Accounts.exits accounts
    exact .inr (.inr ⟨status,is ▸ member⟩)

omit [Fintype Tid] in
/-- A run without a stop gives no reason for one. -/
theorem grounds_of_noStop {state : State Tid} (reached : Transition.Reaches (router config Tid) NoStop state) :
    Grounds config (fun why => why ≠ .Stop) state := by
  refine ⟨by simp,fun _ _ _ _ _ => by simp,fun _ _ _ _ _ _ => by simp,fun t clears => ?_⟩
  rw [nobody_clears reached t] at clears
  cases clears

/-- A resident stays loaded: from a state reached without a stop, in every run
    without one, its child leaves its slot only after its process has exited on its
    own, whatever is asked for, swept or admitted meanwhile. -/
theorem residents_stay (reached : Transition.Reaches (router config Tid) NoStop before)
    (trace : Transition.Trace (router config Tid) NoStop before events after) {entry : Entry} (known : entry ∈ config.catalog.entries)
    (resident : entry.residency = .Resident) (there : before.shared.slots entry.id = some held) :
    StaysUnlessExited before after events entry.id held.child := by
  have keeps : (storePolicy config fun why => why ≠ .Stop).Keeps entry.id := ⟨by simp [storePolicy],.inl ⟨entry,known,rfl,resident⟩⟩
  exact stays_of_keeps (fun _ reached => grounds_of_noStop reached) reached trace keeps there

end Kept

/-- The two models, with a window. -/
def sweptModels : Config := { twoModels with idleWindow := .new 1 }

/-- The reaper's two sweeps over two models, neither of which it takes. -/
def sweepingBoth {Tid : Type} (t : Tid) : List (Event Tid) :=
  (.Reap :: List.replicate 11 .Go).map (.Act t)

/-- The resident is loaded; its window passes, the reaper sweeps, and the other
    model is asked for and refused. -/
theorem warm_stays : ∃ after, Transition.Reaches (router sweptModels Bool) NoStop after ∧ after.shared.clock = 3 ∧
    ∃ held, after.shared.slots "r" = some held ∧ held.child = ⟨0,"r"⟩ := by
  have loads : ((router sweptModels Bool).run noStop (State.start Bool) (weighing warm false ++ warming false)).any (fun before =>
      (∃ held ∈ before.shared.slots "r", held.child = ⟨0,"r"⟩) ∧ before.shared.life ⟨0,"r"⟩ = .Running ∧
      ((router sweptModels Bool).run noStop before
        ([.Tick,.Tick,.Tick] ++ sweepingBoth true ++ weighing model true ++ [.Go,.Clock false,.Go].map (.Act true))).any
        fun after => after.shared.clock = 3) = true := by
    decide +kernel
  obtain ⟨before,loaded,checked⟩ := (Option.any_eq_true ..).mp loads
  obtain ⟨⟨held,there,same⟩,running,goes⟩ := of_decide_eq_true checked
  obtain ⟨after,runs,late⟩ := (Option.any_eq_true ..).mp goes
  have reached := Transition.run_reaches noStop_spec .start loaded
  have trace := Transition.trace_of_run noStop_spec runs
  have known : warm ∈ sweptModels.catalog.entries := List.mem_cons_of_mem _ (List.mem_singleton_self _)
  refine ⟨after,trace.reaches reached,of_decide_eq_true late,?_⟩
  rcases residents_stay reached trace known rfl there with ⟨held',still,same'⟩ | ⟨status,exited⟩ | ⟨status,dies⟩
  · exact ⟨held',still,same'.trans same⟩
  · rw [same,running] at exited
    cases exited
  · simp [sweepingBoth,weighing] at dies

/-! ## With neither a limit nor a window -/

section Unlimited
variable {Tid : Type} [Fintype Tid] [DecidableEq Tid] {config : Config} {before after state : State Tid}
  {events : List (Event Tid)} {held : Loaded Child}

/-- Nobody calls stop, and the device tells nothing. -/
def Untold {Tid : Type} (state : State Tid) (event : Event Tid) : Prop :=
  NoStop state event ∧ ∀ t reading, event ≠ .Act t (.Device (some reading))

/-- Nothing limits what an admission sees, and it unloads nothing. -/
def Unlimited : Phase → Prop
  | .Weighing free _ _ => free = none
  | .Unloading _ _ | .Ending _ _ _ => False
  | _ => True

/-- With neither a limit nor a reading everything fits. -/
theorem fits_unlimited {budget : Admission.Budget} (unlimited : budget.limitMib = none) {seen : List Admission.Loaded}
    {wanted : Admission.Wanted} {decision : Admission.Decision} (decided : budget.admit seen wanted none = some decision) :
    decision = .Fits := by
  by_cases is : Admission.IsLoaded seen wanted
  · rw [Admission.admit_loaded is] at decided
    exact (Option.some.inj decided).symm
  have possible : ¬ Admission.TooLarge budget wanted := by
    rintro ⟨limit,some_limit,_⟩
    rw [unlimited] at some_limit
    cases some_limit
  rw [Admission.admit_weigh none is possible] at decided
  by_cases fine : Admission.Calculable budget seen wanted none
  · have room : Admission.RoomAfter budget seen wanted none [] := by
      refine ⟨fun limit some_limit => ?_,fun reading some_reading => (by cases some_reading)⟩
      rw [unlimited] at some_limit
      cases some_limit
    rw [Admission.weigh_fits fine room] at decided
    exact (Option.some.inj decided).symm
  · rw [Admission.weigh_panics fine] at decided
    cases decided

omit [Fintype Tid] [DecidableEq Tid] in
theorem PhaseBranch.unlimited {s s' : Shared Tid} {request : Request} {phase next : Phase} {input : Input}
    (no_limit : config.budget.limitMib = none) (unread : ∀ reading, input ≠ .Device (some reading))
    (branch : PhaseBranch config s request input phase s' (.Admitting request next)) (unlimited : Unlimited phase) : Unlimited next := by
  cases branch with
  | reads reading =>
    cases reading with
    | none => rfl
    | some figures => exact absurd rfl (unread figures)
  | weighs => exact unlimited
  | chooses _ free seen ids decided =>
    change free = none at unlimited
    subst unlimited
    cases fits_unlimited no_limit decided
  | takes => exact unlimited
  | skips => exact unlimited
  | ends => exact unlimited
  | _ => trivial

/-- With no budget and no window nothing is unloaded: where the device tells
    nothing and nobody calls stop, whatever was loaded stays in its slot until
    its process exits on its own. -/
theorem unlimited_stays (no_limit : config.budget.limitMib = none) (no_window : config.idleWindow.duration = none)
    (reached : Transition.Reaches (router config Tid) Untold before)
    (trace : Transition.Trace (router config Tid) Untold before events after) {id : String}
    (there : before.shared.slots id = some held) : StaysUnlessExited before after events id held.child := by
  have keeps : (storePolicy config fun why => why = .Exited).Keeps id := ⟨by simp [storePolicy],.inr (by simp [storePolicy])⟩
  refine stays_of_keeps (fun state reached => ?_) reached trace keeps there
  refine ⟨rfl,fun t request named rest doing => ?_,fun _ _ _ _ _ on => absurd no_window on,fun t clears => ?_⟩
  · have unlimited : Unlimited (.Unloading named rest) :=
      phase_invariant trivial (fun may branch => branch.unlimited no_limit fun reading is => may.2 _ reading (by rw [is])) reached doing
    exact unlimited.elim
  · rw [nobody_clears (reached.mono fun _ _ may => may.1) t] at clears
    cases clears

end Unlimited

/-- The two models with neither a limit nor a window. -/
def unlimitedModels : Config := { twoModels with budget := ⟨none⟩ }

/-- Nobody calls stop and the device tells nothing. -/
def untold {Tid : Type} (s : State Tid) : Event Tid → Bool
  | .Act _ (.Device (some _)) => false
  | event => noStop s event

theorem untold_spec {Tid : Type} (s : State Tid) (event : Event Tid) (permitted : untold s event = true) : Untold s event := by
  unfold untold at permitted
  split at permitted
  · cases permitted
  · rename_i tells
    exact ⟨noStop_spec s event permitted,fun t reading is => tells t reading is⟩

/-- Both models are loaded, beside each other, and the first stays. -/
theorem both_stay : ∃ after, Transition.Reaches (router unlimitedModels Bool) Untold after ∧ (after.shared.slots "r").isSome ∧
    ∃ held, after.shared.slots "m" = some held ∧ held.child = ⟨0,"m"⟩ := by
  have loads : ((router unlimitedModels Bool).run untold (State.start Bool) (weighing model false ++ warming false)).any (fun before =>
      (∃ held ∈ before.shared.slots "m", held.child = ⟨0,"m"⟩) ∧ before.shared.life ⟨0,"m"⟩ = .Running ∧
      ((router unlimitedModels Bool).run untold before (.Tick :: weighing warm true ++ warming true)).any
        fun after => (after.shared.slots "r").isSome) = true := by
    decide +kernel
  obtain ⟨before,loaded,checked⟩ := (Option.any_eq_true ..).mp loads
  obtain ⟨⟨held,there,same⟩,running,goes⟩ := of_decide_eq_true checked
  obtain ⟨after,runs,beside⟩ := (Option.any_eq_true ..).mp goes
  have reached := Transition.run_reaches untold_spec .start loaded
  have trace := Transition.trace_of_run untold_spec runs
  refine ⟨after,trace.reaches reached,beside,?_⟩
  rcases unlimited_stays rfl rfl reached trace there with ⟨held',still,same'⟩ | ⟨status,exited⟩ | ⟨status,dies⟩
  · exact ⟨held',still,same'.trans same⟩
  · rw [same,running] at exited
    cases exited
  · simp [weighing,warming,serving] at dies

end Maestro.Threads
