import Maestro.AdmissionWaiting
import Maestro.FreedRoom

/-!
# What the dead hold against the budget

A child that exits on its own keeps its slot until a request for its entry or a
sweep looks at it, and an admission counts every occupied slot. A refusal for
good is compared with the one that leaves the dead out.
-/
namespace Maestro.Admission

section Beside
variable {budget : Budget} {loaded kept : List Loaded} {wanted : Wanted} {free : Option ℕ}

/-- The entry fits beside the residents, on the ledger and on the device, with
    everything on-demand unloaded. -/
def FitsBeside (budget : Budget) (loaded : List Loaded) (wanted : Wanted) (free : Option ℕ) : Prop :=
  (∀ limit, budget.limitMib = some limit → wanted.costMib + reservedMib loaded ≤ limit) ∧
  ∀ f, free = some f → wanted.deviceMib ≤ f + ((yielding loaded wanted).map Loaded.deviceMib).sum

/-- What is loaded is resident or can yield. -/
theorem yielding_beside_residents (absent : ¬ IsLoaded loaded wanted) :
    ((yielding loaded wanted).map Loaded.costMib).sum + reservedMib loaded = (loaded.map Loaded.costMib).sum := by
  induction loaded with
  | nil => rfl
  | cons entry rest ih =>
    have apart : entry.id ≠ wanted.id := fun same => absent ⟨entry,List.mem_cons_self,same⟩
    have later := ih fun ⟨other,inside,same⟩ => absent ⟨other,List.mem_cons_of_mem _ inside,same⟩
    rcases residency : entry.residency with _ | _
    · simp [yielding,reservedMib,residents,residency] at later ⊢
      omega
    · simp [yielding,reservedMib,residents,residency,apart] at later ⊢
      omega

/-- Where nothing on-demand is busy, what can yield is a candidate. -/
theorem candidates_perm_yielding (quiet : freesItself loaded wanted = false) :
    (candidates loaded wanted).Perm (yielding loaded wanted) := by
  refine candidates_perm.trans (List.Perm.of_eq ?_)
  rw [yielding]
  refine List.filter_congr fun entry inside => ?_
  have still := List.any_eq_false.mp quiet entry inside
  rw [Bool.not_eq_true] at still
  simp only [isCandidate] at still ⊢
  cases residency : entry.residency <;> cases busy : entry.busy <;> simp [residency,busy] at still ⊢
  exact still

theorem room_iff_fitsBeside (absent : ¬ IsLoaded loaded wanted) (quiet : freesItself loaded wanted = false) :
    RoomAfter budget loaded wanted free (candidates loaded wanted) ↔ FitsBeside budget loaded wanted free := by
  have same := candidates_perm_yielding quiet
  have cost := yielding_beside_residents absent
  rw [RoomAfter,(same.map Loaded.costMib).sum_eq,(same.map Loaded.deviceMib).sum_eq,FitsBeside]
  refine and_congr (forall_congr' fun limit => forall_congr' fun _ => ?_) Iff.rfl
  omega

theorem not_fitsBeside_of_too_large (large : TooLarge budget wanted) : ¬ FitsBeside budget loaded wanted free := by
  obtain ⟨limit,is,exceeds⟩ := large
  rintro ⟨ledger,_⟩
  have := ledger limit is
  omega

section Part
variable (part : kept.Sublist loaded)
include part

theorem isLoaded_part (absent : ¬ IsLoaded loaded wanted) : ¬ IsLoaded kept wanted :=
  fun ⟨entry,inside,same⟩ => absent ⟨entry,part.subset inside,same⟩

theorem quiet_part (quiet : freesItself loaded wanted = false) : freesItself kept wanted = false :=
  List.any_eq_false.mpr fun entry inside => List.any_eq_false.mp quiet entry (part.subset inside)

theorem candidates_part : (candidates kept wanted).Subperm (candidates loaded wanted) :=
  candidates_perm.subperm.trans ((part.filter _).subperm.trans candidates_perm.symm.subperm)

/-- Fewer entries are summed up where more could be. -/
theorem calculable_part (fine : Calculable budget loaded wanted free)
    (short : ¬ RoomAfter budget loaded wanted free (candidates loaded wanted)) : Calculable budget kept wanted free := by
  have held : (kept.map Loaded.costMib).sum ≤ (loaded.map Loaded.costMib).sum :=
    (part.map Loaded.costMib).sum_le_sum fun _ _ => Nat.zero_le _
  have reserved : reservedMib kept ≤ reservedMib loaded :=
    ((part.filter _).map Loaded.costMib).sum_le_sum fun _ _ => Nat.zero_le _
  -- The call went through every candidate, so that all of their sums are in range.
  have device := fine.device (candidates loaded wanted).length le_rfl fun j _ room =>
    short (room.mono (List.take_sublist j _).subperm)
  rw [List.take_length] at device
  refine ⟨by have := fine.held; omega,fun limit is => ?_,fun limit is => reserved.trans (fine.reserved limit is),
    fun k _ _ => ?_⟩
  · have := fine.ledger limit is
    omega
  · have fewer : (((candidates kept wanted).take k).map Loaded.deviceMib).sum ≤
        ((candidates loaded wanted).map Loaded.deviceMib).sum :=
      Selection.total_le_of_subperm Loaded.deviceMib ((List.take_sublist k _).subperm.trans (candidates_part part))
    refine ⟨by omega,fun f is => ?_⟩
    have := device.2 f is
    omega

/-- What is refused for good is refused with a part of what is held left out
    exactly where it would not fit beside the rest. -/
theorem refuse_part (refused : ∃ message, budget.admit loaded wanted free = some (.Refuse message)) :
    (∃ message, budget.admit kept wanted free = some (.Refuse message)) ↔ ¬ FitsBeside budget kept wanted free := by
  have absent : ¬ IsLoaded loaded wanted := by
    intro is
    obtain ⟨message,refused⟩ := refused
    rw [admit_loaded is] at refused
    cases refused
  have elsewhere := isLoaded_part part absent
  by_cases large : TooLarge budget wanted
  · obtain ⟨limit,is,exceeds⟩ := large
    simp [admit_too_large free elsewhere is exceeds,not_fitsBeside_of_too_large ⟨limit,is,exceeds⟩]
  · obtain ⟨fine,short,quiet⟩ := (refuse_iff absent large).mp refused
    have still := quiet_part part quiet
    rw [refuse_iff elsewhere large,room_iff_fitsBeside elsewhere still]
    simp [calculable_part part fine short,still]

end Part
end Beside
end Maestro.Admission

namespace Maestro.Threads
open Slots (Loaded Slot Table)

/-! ## A refusal for good, and the dead -/

section Dead
variable {Tid : Type} (self : Shared Tid)

/-- A slot holds a child that has exited and that nothing reads from. -/
def Shared.isDead (id : String) : Bool := (self.slots id).any fun held => (Slots.exited self.strong self.check held).isSome

/-- What is held, with the dead left out. -/
def Shared.living (seen : List Admission.Loaded) : List Admission.Loaded := seen.filter fun subject => !self.isDead subject.id

/-- Where an admission stands when it decides: who asks, what the device has
    free, and what is held. -/
def Job.weighed : Job → Option (Request × Option ℕ × List Admission.Loaded)
  | .Admitting request (.Weighing free [] seen) => some (request, free, seen)
  | _ => none

/-- What is refused for good now would be refused for good without the dead. -/
def RefusesWithoutDead (config : Config) (state : State Tid) : Prop :=
  ∀ t request free seen message, (state.jobs t).weighed = some (request, free, seen) →
    config.budget.admit seen (.of request.entry) free = some (.Refuse message) →
    ∃ message, config.budget.admit (state.shared.living seen) (.of request.entry) free = some (.Refuse message)

variable {config : Config}

/-- Whatever the state, a refusal for good stands without the dead exactly where
    the entry does not fit beside the residents that live. -/
theorem refuses_without_dead_iff (state : State Tid) :
    RefusesWithoutDead config state ↔ ∀ t request free seen message, (state.jobs t).weighed = some (request,free,seen) →
      config.budget.admit seen (.of request.entry) free = some (.Refuse message) →
      ¬ Admission.FitsBeside config.budget (state.shared.living seen) (.of request.entry) free := by
  have alike (request : Request) (free : Option ℕ) (seen : List Admission.Loaded) (message : String)
      (refused : config.budget.admit seen (.of request.entry) free = some (.Refuse message)) :=
    Admission.refuse_part (List.filter_sublist : (state.shared.living seen).Sublist seen) ⟨message,refused⟩
  constructor
  · intro refuses t request free seen message weighed refused
    exact (alike request free seen message refused).mp (refuses t request free seen message weighed refused)
  · intro short t request free seen message weighed refused
    exact (alike request free seen message refused).mpr (short t request free seen message weighed refused)

end Dead

/-! ## A resident that has died -/

/-- A resident entry of 8 MiB. -/
def warm : Entry := ⟨"r","r.gguf",none,none,4096,.Resident,8,none,none,30,none,[]⟩

/-- An on-demand and a resident entry in a budget that holds one of them, and no
    idle window. -/
def twoModels : Config where
  catalog := ⟨[model,warm],by decide⟩
  budget := ⟨some 10⟩
  wait := 0
  server := ⟨"/bin/llama-server"⟩
  root := "/models"
  idleWindow := .new 0

/-- The steps of a request that finds its own slot empty, up to the decision. -/
def weighing {Tid : Type} (entry : Entry) (t : Tid) : List (Event Tid) :=
  [.Ask ⟨entry,false⟩,.Go,.Go,.Go,.Go,.Go,.Resolve none,.Device none,.Go,.Go,.Go,.Go].map (.Act t)

/-- From there, with room, until the child is loaded and nobody holds it. -/
def warming {Tid : Type} (t : Tid) : List (Event Tid) :=
  ([.Go,.Clock false,.Spawn none].map (.Act t) ++ serving 8 t) ++ [.Go,.Go].map (.Act t)

/-- What the second request's snapshot says of the resident. -/
def heldWarm : Admission.Loaded := ⟨"r",8,8,.Resident,false,0⟩

theorem warm_refuses : ∃ message, twoModels.budget.admit [heldWarm] (.of model) none = some (.Refuse message) := ⟨_,rfl⟩

/-- A resident that lives refuses the other model for good. -/
theorem refused_beside_living : ∃ state, Transition.Reaches (router twoModels Bool) (fun _ _ => True) state ∧
    (state.jobs true).weighed = some (⟨model,false⟩,none,[heldWarm]) ∧ RefusesWithoutDead twoModels state := by
  have passes : ((router twoModels Bool).run (fun _ _ => true) (State.start Bool)
      (weighing warm false ++ warming false ++ weighing model true)).any (fun state =>
        (state.jobs true).weighed = some (⟨model,false⟩,none,[heldWarm]) ∧ (state.jobs false).weighed = none ∧
        state.shared.living [heldWarm] = [heldWarm]) = true := by
    decide +kernel
  obtain ⟨state,reached,checked⟩ := Transition.exists_of_run (fun _ _ _ => trivial) passes
  obtain ⟨weighed,idle,living⟩ := of_decide_eq_true checked
  refine ⟨state,reached,weighed,(refuses_without_dead_iff state).mpr fun t request free seen message asks _ => ?_⟩
  cases t with
  | false =>
    rw [idle] at asks
    cases asks
  | true =>
    rw [weighed] at asks
    cases asks
    rw [living]
    rintro ⟨ledger,_⟩
    exact absurd (ledger 10 rfl) (by decide)

/-- The resident has died, and the other model is told that it never loads. -/
theorem refused_beside_dead : ∃ state, Transition.Reaches (router twoModels Bool) (fun _ _ => True) state ∧
    (state.shared.life ⟨0,"r"⟩).liveness ≠ .Running ∧ state.shared.strong ⟨0,"r"⟩ = 1 ∧
    ¬ RefusesWithoutDead twoModels state := by
  have passes : ((router twoModels Bool).run (fun _ _ => true) (State.start Bool)
      (weighing warm false ++ warming false ++ [.Dies ⟨0,"r"⟩ "exit status: 1"] ++ weighing model true)).any (fun state =>
        (state.jobs true).weighed = some (⟨model,false⟩,none,[heldWarm]) ∧ state.shared.living [heldWarm] = [] ∧
        (state.shared.life ⟨0,"r"⟩).liveness ≠ .Running ∧ state.shared.strong ⟨0,"r"⟩ = 1) = true := by
    decide +kernel
  obtain ⟨state,reached,checked⟩ := Transition.exists_of_run (fun _ _ _ => trivial) passes
  obtain ⟨weighed,living,exited,alone⟩ := of_decide_eq_true checked
  refine ⟨state,reached,exited,alone,fun refuses => ?_⟩
  obtain ⟨message,refused⟩ := warm_refuses
  obtain ⟨other,still⟩ := refuses true _ _ _ message weighed refused
  rw [living] at still
  cases still

end Maestro.Threads
