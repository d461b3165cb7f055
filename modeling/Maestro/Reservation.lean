import Maestro.DeadChildren
import Maestro.FreedRoom

/-!
# What the router says about memory before it serves anything

An operator sets a ceiling from these lines. What the residents reserve is summed
from the catalog alone; what is loaded and started afterwards keeps to it,
whatever is measured.
-/
namespace Maestro.Startup

/-- What the residents hold, and what that leaves for everything else. -/
def reservation (limitMib : Option ℕ) (reservedMib : ℕ) : String :=
  match limitMib with
  | none => s!"residents reserve {reservedMib} MiB, against no budget"
  | some limit =>
    if reservedMib ≤ limit then
      s!"residents reserve {reservedMib} MiB of {limit} MiB, leaving {limit - reservedMib} MiB for everything else"
    else s!"residents reserve {reservedMib} MiB, more than the {limit} MiB budget: what does not fit is refused"

end Maestro.Startup

namespace Maestro

/-- What the entries held loaded reserve, in mebibytes. -/
def Catalog.residentReservationMib (self : Catalog) : ℕ :=
  ((self.entries.filter fun entry => entry.residency = .Resident).map Entry.memoryEstimateMib).sum

end Maestro

namespace Maestro.Threads
open Slots (Loaded Slot Table)

/-! ## What is loaded, by its estimates -/

/-- What the loaded entries of one residency were estimated at. -/
def loadedEstimate (config : Config) (residency : Residency) (slots : Table Child) : ℕ :=
  (config.catalog.entries.map fun entry =>
    if entry.residency = residency ∧ (slots entry.id).isSome then entry.memoryEstimateMib else 0).sum

/-- Every resident is loaded. -/
def ResidentsLoaded (config : Config) (slots : Table Child) : Prop :=
  ∀ entry ∈ config.catalog.entries, entry.residency = .Resident → (slots entry.id).isSome

section Estimates
variable {config : Config} {slots : Table Child}

theorem sum_filter_map {α : Type} (keeps : α → Bool) (weight : α → ℕ) (xs : List α) :
    ((xs.filter keeps).map weight).sum = (xs.map fun x => if keeps x then weight x else 0).sum := by
  induction xs with
  | nil => rfl
  | cons x xs ih =>
    rw [List.filter_cons,List.map_cons,List.sum_cons,← ih]
    by_cases kept : keeps x = true
    · rw [if_pos kept,if_pos kept,List.map_cons,List.sum_cons]
    · rw [if_neg kept,if_neg kept,Nat.zero_add]

/-- With every resident loaded, they are estimated at what they reserve. -/
theorem reserved_eq (all : ResidentsLoaded config slots) :
    loadedEstimate config .Resident slots = config.catalog.residentReservationMib := by
  rw [Catalog.residentReservationMib,sum_filter_map,loadedEstimate]
  refine congrArg List.sum (List.map_congr_left fun entry known => ?_)
  by_cases resident : entry.residency = .Resident
  · simp [resident,all entry known resident]
  · simp [resident]

/-- Each loaded entry is resident or on-demand, and its slot weighs at least its
    estimate. -/
theorem estimates_le (weight : Entry → ℕ) (least : ∀ entry ∈ config.catalog.entries, (slots entry.id).isSome → entry.memoryEstimateMib ≤ weight entry) :
    loadedEstimate config .Resident slots + loadedEstimate config .OnDemand slots ≤ (config.catalog.entries.map weight).sum := by
  rw [loadedEstimate,loadedEstimate,← List.sum_map_add]
  refine List.sum_le_sum fun entry known => ?_
  by_cases loaded : (slots entry.id).isSome = true
  · have enough := least entry known loaded
    cases residency : entry.residency <;> simp [loaded,enough]
  · simp [loaded]

theorem estimates_le_ledger_of_slots : loadedEstimate config .Resident slots + loadedEstimate config .OnDemand slots ≤
    ledger config.catalog.entries slots [] := by
  refine estimates_le _ fun entry _ loaded => ?_
  obtain ⟨held,there⟩ := Option.isSome_iff_exists.mp loaded
  rw [there]
  simpa [slotCharge] using charge_ge entry held

end Estimates

/-! ## In every reachable state -/

section Reachable
variable {Tid : Type} [DecidableEq Tid] {config : Config} {allowed : State Tid → Event Tid → Prop} {state : State Tid} {limit : ℕ}

/-- What is loaded was estimated within the budget, whatever it was measured at. -/
theorem estimates_within (reached : Transition.Reaches (router config Tid) allowed state) (is : config.budget.limitMib = some limit) :
    loadedEstimate config .Resident state.shared.slots + loadedEstimate config .OnDemand state.shared.slots ≤ limit := by
  refine (estimates_le _ fun entry _ loaded => ?_).trans (admittedTotal_le reached is)
  obtain ⟨held,there⟩ := Option.isSome_iff_exists.mp loaded
  rw [there]
  simp only [admittedAt,Option.elim_some]
  split_ifs
  · exact le_rfl
  · exact charge_ge entry held

/-- What is about to be started fits beside what is loaded. -/
theorem starts_within (reached : Transition.Reaches (router config Tid) allowed state) (is : config.budget.limitMib = some limit)
    {t : Tid} {request : Request} (starts : (state.jobs t).starts = some request) :
    loadedEstimate config .Resident state.shared.slots + loadedEstimate config .OnDemand state.shared.slots +
      request.entry.memoryEstimateMib ≤ limit := by
  obtain ⟨second,doing⟩ := starts_spec starts
  have room := ((oneAtATime reached).sound t request _ doing).2 limit is
  exact (Nat.add_le_add_right estimates_le_ledger_of_slots _).trans room

/-- The startup line about the residents is true of every run. Where they reserve
    more than the budget, one of them is not loaded; otherwise, while all of
    them are loaded, the other models that are loaded were estimated within the
    figure that is left, and so is any that is started beside them. -/
theorem reservation_told (reached : Transition.Reaches (router config Tid) allowed state) (is : config.budget.limitMib = some limit) :
    (limit < config.catalog.residentReservationMib ∧
      Startup.reservation (some limit) config.catalog.residentReservationMib =
        s!"residents reserve {config.catalog.residentReservationMib} MiB, more than the {limit} MiB budget: what does not fit is refused" ∧
      ∃ entry ∈ config.catalog.entries, entry.residency = .Resident ∧ state.shared.slots entry.id = none) ∨
    ∃ left, limit = config.catalog.residentReservationMib + left ∧
      Startup.reservation (some limit) config.catalog.residentReservationMib =
        s!"residents reserve {config.catalog.residentReservationMib} MiB of {limit} MiB, leaving {left} MiB for everything else" ∧
      (ResidentsLoaded config state.shared.slots → loadedEstimate config .OnDemand state.shared.slots ≤ left ∧
        ∀ t request, (state.jobs t).starts = some request →
          loadedEstimate config .OnDemand state.shared.slots + request.entry.memoryEstimateMib ≤ left) := by
  have within := estimates_within reached is
  by_cases fits : config.catalog.residentReservationMib ≤ limit
  · refine .inr ⟨limit - config.catalog.residentReservationMib,by omega,if_pos fits,fun all => ⟨?_,fun t request starts => ?_⟩⟩
    · rw [reserved_eq all] at within
      omega
    · have beside := starts_within reached is starts
      rw [reserved_eq all] at beside
      omega
  · refine .inl ⟨by omega,if_neg fits,?_⟩
    by_contra none_missing
    have all : ResidentsLoaded config state.shared.slots := by
      intro entry known resident
      by_contra missing
      exact none_missing ⟨entry,known,resident,by simpa using missing⟩
    rw [reserved_eq all] at within
    omega

/-- Every process that was ever started is of an entry whose estimate the budget
    covers: a model estimated above it is never started, and with a budget of
    zero nothing is that needs any memory. -/
theorem started_within (reached : Transition.Reaches (router config Tid) allowed state) (is : config.budget.limitMib = some limit)
    (child : Child) (born : state.shared.life child ≠ .Unborn) :
    ∃ entry ∈ config.catalog.entries, entry.id = child.id ∧ entry.memoryEstimateMib ≤ limit := by
  refine Transition.Reaches.invariant (P := fun state => ∀ child, state.shared.life child ≠ .Unborn →
      ∃ entry ∈ config.catalog.entries, entry.id = child.id ∧ entry.memoryEstimateMib ≤ limit)
    (fun child born => absurd rfl born) (fun before event after reached covered _ steps child born => ?_) reached child born
  rcases step_cases steps with ⟨_,shared,_⟩ | ⟨dead,_,running,_,shared⟩ | ⟨t,input,job,_,ran,_⟩
  · rw [shared] at born
    exact covered child born
  · refine covered child fun unborn => ?_
    rw [shared] at born
    by_cases this : child = dead
    · rw [← this,unborn] at running
      cases running
    · exact born ((Function.update_of_ne this ..).trans unborn)
  · rcases (step_effect ran).lives child with same | stopped | ⟨request,starts,rfl,_⟩
    · exact covered child (same ▸ born)
    · refine covered child fun unborn => born ?_
      rw [stopped,unborn]
      rfl
    · obtain ⟨second,doing⟩ := starts_spec starts
      have known := (oneAtATime reached).known t request (by rw [doing]; rfl)
      have room := starts_within reached is starts
      exact ⟨request.entry,known,rfl,by omega⟩

end Reachable

/-! ## A resident and another model -/

/-- The two models in a budget that holds both. -/
def roomyModels : Config := { twoModels with budget := ⟨some 20⟩ }

/-- The resident is loaded, and the other model is about to be started. -/
def startingBeside : List (Event Bool) :=
  weighing warm false ++ warming false ++ weighing model true ++ [.Go,.Clock false].map (.Act true)

theorem startingBeside_runs : ∃ state, Transition.Reaches (router roomyModels Bool) (fun _ _ => True) state ∧
    (state.jobs true).starts = some ⟨model,false⟩ ∧ (state.shared.slots "r").isSome ∧ state.shared.life ⟨0,"r"⟩ ≠ .Unborn := by
  have passes : ((router roomyModels Bool).run (fun _ _ => true) (State.start Bool) startingBeside).any (fun state =>
      (state.jobs true).starts = some ⟨model,false⟩ ∧ (state.shared.slots "r").isSome ∧ state.shared.life ⟨0,"r"⟩ ≠ .Unborn) = true := by
    decide +kernel
  obtain ⟨state,reached,checked⟩ := Transition.exists_of_run (fun _ _ _ => trivial) passes
  exact ⟨state,reached,of_decide_eq_true checked⟩

/-- Of the 20 MiB the resident leaves 12, and the other model needs eight. -/
theorem started_beside_resident : ∃ state, Transition.Reaches (router roomyModels Bool) (fun _ _ => True) state ∧
    (state.jobs true).starts = some ⟨model,false⟩ ∧ loadedEstimate roomyModels .OnDemand state.shared.slots + 8 ≤ 12 := by
  obtain ⟨state,reached,starts,warm_loaded,_⟩ := startingBeside_runs
  have all : ResidentsLoaded roomyModels state.shared.slots := by
    intro entry known resident
    rcases List.mem_cons.mp known with rfl | last
    · cases resident
    · rwa [List.mem_singleton.mp last]
  have reserved : roomyModels.catalog.residentReservationMib = 8 := rfl
  rcases reservation_told reached (rfl : _ = some 20) with ⟨exceeds,_⟩ | ⟨left,budget,_,holds⟩
  · rw [reserved] at exceeds
    omega
  · have beside := (holds all).2 true _ starts
    rw [reserved] at budget
    refine ⟨state,reached,starts,?_⟩
    change _ + 8 ≤ left at beside
    omega

/-- The resident was started, and is covered by the budget. -/
theorem resident_started_within : ∃ state, Transition.Reaches (router roomyModels Bool) (fun _ _ => True) state ∧
    ∃ entry ∈ roomyModels.catalog.entries, entry.id = "r" ∧ entry.memoryEstimateMib ≤ 20 := by
  obtain ⟨state,reached,_,_,born⟩ := startingBeside_runs
  exact ⟨state,reached,started_within reached rfl ⟨0,"r"⟩ born⟩

end Maestro.Threads
