import Maestro.Reservation
import Maestro.RoomWait

/-!
# Loading the entries the catalog holds loaded

What runs once at startup, before anything has been asked for: every resident is
asked for as a request would ask for it, in the order of the catalog, and what
failed is reported. Readers may come and go meanwhile.
-/
namespace Maestro.Admission
open Maestro.Selection

/-- The budget covers so many mebibytes. -/
def Budget.covers (self : Budget) (mib : ℕ) : Bool := self.limitMib.all fun limit => mib ≤ limit

variable {budget : Budget} {loaded : List Loaded} {wanted : Wanted} {free : Option ℕ}

theorem covers_iff {mib : ℕ} : budget.covers mib = true ↔ ∀ limit, budget.limitMib = some limit → mib ≤ limit := by
  rw [Budget.covers]
  cases budget.limitMib <;> simp

theorem covers_mono {less more : ℕ} (le : less ≤ more) (covers : budget.covers more = true) : budget.covers less = true := by
  rw [covers_iff] at covers ⊢
  intro limit is
  exact le.trans (covers limit is)

/-- Beside residents alone there is nothing to unload or to wait for: an entry
    that the device has room for fits or is refused for good. -/
theorem admit_beside_residents (absent : ¬ IsLoaded loaded wanted) (pinned : ∀ entry ∈ loaded, entry.residency = .Resident)
    (small : (loaded.map Loaded.costMib).sum + wanted.costMib < 2 ^ 64)
    (covered : budget.covers (loaded.map Loaded.costMib).sum = true)
    (device : ∀ f, free = some f → wanted.deviceMib ≤ f ∧ f < 2 ^ 64) :
    (budget.covers ((loaded.map Loaded.costMib).sum + wanted.costMib) = true → budget.admit loaded wanted free = some .Fits) ∧
    (budget.covers ((loaded.map Loaded.costMib).sum + wanted.costMib) = false →
      ∃ message, budget.admit loaded wanted free = some (.Refuse message)) := by
  have nothing : candidates loaded wanted = [] := by
    rw [List.eq_nil_iff_forall_not_mem]
    intro entry member
    obtain ⟨among,onDemand,_⟩ := mem_candidates.mp member
    rw [pinned entry among] at onDemand
    cases onDemand
  have all : residents loaded = loaded := List.filter_eq_self.mpr fun entry member => decide_eq_true (pinned entry member)
  have fine : Calculable budget loaded wanted free := by
    refine ⟨by omega,fun _ _ => small,fun limit is => ?_,fun k _ _ => ?_⟩
    · rw [reservedMib,all]
      exact covers_iff.mp covered limit is
    · rw [nothing,List.take_nil]
      exact ⟨by simp,fun f is => by simpa using (device f is).2⟩
  have room : RoomAfter budget loaded wanted free [] ↔
      budget.covers ((loaded.map Loaded.costMib).sum + wanted.costMib) = true := by
    rw [covers_iff,RoomAfter]
    simp only [List.map_nil,List.sum_nil,Nat.sub_zero,Nat.add_zero]
    exact ⟨And.left,fun covers => ⟨covers,fun f is => (device f is).1⟩⟩
  constructor
  · intro covers
    by_cases large : TooLarge budget wanted
    · obtain ⟨limit,is,exceeds⟩ := large
      have := covers_iff.mp covers limit is
      omega
    · rw [admit_weigh free absent large,weigh_fits fine (room.mpr covers)]
  · intro uncovered
    by_cases large : TooLarge budget wanted
    · obtain ⟨limit,is,exceeds⟩ := large
      exact ⟨_,admit_too_large free absent is exceeds⟩
    · have short : ¬ RoomAfter budget loaded wanted free (taken budget loaded wanted free) := by
        have none_taken : taken budget loaded wanted free = [] := by rw [taken,nothing]; rfl
        rw [none_taken,room,uncovered]
        exact Bool.noConfusion
      obtain ⟨message,refused,_⟩ := weigh_refused fine short
      have busy : freesItself loaded wanted = false := by
        rw [freesItself,List.any_eq_false]
        intro entry member
        simp [pinned entry member]
      rw [busy] at refused
      exact ⟨message,by rw [admit_weigh free absent large,refused]; rfl⟩

end Maestro.Admission

namespace Maestro.Slots
open Admission (Budget)

section
variable {C : Type} (self : Router) (machine : Launch.Machine) (calls : Entry → Call C)

/-- Loads these entries one after the other, reporting what failed; a panic ends
    the thread. -/
def Router.loadEach : List Entry → Table C → Option (List String) × Table C
  | [], slots => (some [], slots)
  | entry :: rest, slots =>
    match self.child machine entry (calls entry) slots with
    | (none, slots) => (none, slots)
    | (some (.ok _), slots) => loadEach rest slots
    | (some (.error failure), slots) =>
      match loadEach rest slots with
      | (failures, slots) => (failures.map (s!"{entry.id}: {failure.message}" :: ·), slots)

/-- The entries held loaded. -/
def residents (catalog : Catalog) : List Entry := catalog.entries.filter fun entry => entry.residency = .Resident

/-- Loads every resident entry, reporting what failed. -/
def Router.load (slots : Table C) : Option (List String) × Table C := self.loadEach machine calls (residents self.catalog) slots

/-! ## What a boot is to come to -/

/-- Which of these entries fit one after another, at their estimates, beside what
    is loaded already; and which do not. -/
def boot (budget : Budget) : ℕ → List Entry → List Entry × List Entry
  | _, [] => ([], [])
  | total, entry :: rest =>
    if budget.covers (total + entry.memoryEstimateMib) then
      let (fits, refused) := boot budget (total + entry.memoryEstimateMib) rest
      (entry :: fits, refused)
    else
      let (fits, refused) := boot budget total rest
      (fits, entry :: refused)

/-- Others have at most marked what is loaded as used. -/
def Moment.Stamps (moment : Moment C) : Prop :=
  ∀ slots id, (moment.others slots id).map (fun held => (held.child,held.measured)) =
    (slots id).map fun held => (held.child,held.measured)

/-- What an entry's child is charged. -/
def cost (entry : Entry) (measured : Measurement) : ℕ := (Admission.Loaded.of entry false 0 measured).costMib

def slotCost (slots : Table C) (entry : Entry) : ℕ := (slots entry.id).elim 0 fun held => cost entry held.measured

/-- Nothing but a lack of budget keeps this entry from being loaded: its model
    file is there, the device has room for it, it starts, and it is measured
    within its estimate. -/
structure Boots (router : Router) (machine : Launch.Machine) (calls : Entry → Call C) (entry : Entry) : Prop where
  fast : (calls entry).fast.Stamps
  queued : (calls entry).queued.Stamps
  weighing : ((calls entry).pass 0).weighing.Stamps
  acting : ((calls entry).pass 0).acting.Stamps
  placing : (calls entry).placing.Stamps
  model : ∃ model, Launch.modelFile machine entry router.root = .ok model
  device : ∀ reading, ((calls entry).pass 0).device = some reading →
    Admission.deviceNeedMib entry ≤ reading.freeMib ∧ reading.freeMib < 2 ^ 64
  starts : ∃ child, Launch.start machine router.server entry router.root (calls entry).first (calls entry).second = .ok child
  measured : cost entry (calls entry).measured = entry.memoryEstimateMib

/-- What the slots cost together. -/
def slotsCost (slots : Table C) : ℕ := (self.catalog.entries.map (slotCost slots)).sum

/-- Only residents are loaded, at so much together, which the budget covers. -/
structure Booted (router : Router) (slots : Table C) (total : ℕ) : Prop where
  pinned : ∀ entry ∈ router.catalog.entries, slots entry.id ≠ none → entry.residency = .Resident
  costs : slotsCost router slots = total
  covered : router.budget.covers total = true

variable {self machine calls} {slots : Table C} {total : ℕ} {entry : Entry}

theorem Moment.Stamps.isSome {moment : Moment C} (stamps : moment.Stamps) (slots : Table C) (id : String) :
    (moment.others slots id).isSome = (slots id).isSome := by
  have same := congrArg Option.isSome (stamps slots id)
  simpa using same

theorem Moment.Stamps.none {moment : Moment C} (stamps : moment.Stamps) {id : String} (empty : slots id = none) :
    moment.others slots id = none := by
  have same := stamps.isSome slots id
  rw [empty] at same
  simpa using same

theorem Moment.Stamps.cost {moment : Moment C} (stamps : moment.Stamps) (slots : Table C) (entry : Entry) :
    slotCost (moment.others slots) entry = slotCost slots entry := by
  have same := stamps slots entry.id
  cases before : slots entry.id with
  | none => rw [slotCost,slotCost,before,stamps.none before]
  | some held =>
    rw [before,Option.map_some] at same
    obtain ⟨now,after,both⟩ := Option.map_eq_some_iff.mp same
    have measured : now.measured = held.measured := congrArg Prod.snd both
    rw [slotCost,slotCost,before,after,Option.elim_some,Option.elim_some,measured]

theorem Booted.stamps {moment : Moment C} (booted : Booted self slots total) (stamps : moment.Stamps) :
    Booted self (moment.others slots) total := by
  refine ⟨fun entry known loaded => booted.pinned entry known fun empty => loaded (stamps.none empty),?_,booted.covered⟩
  rw [← booted.costs,slotsCost,slotsCost]
  exact congrArg List.sum (List.map_congr_left fun entry _ => stamps.cost slots entry)

/-- What a snapshot counts is what the slots cost. -/
theorem held_costs (catalog : List Entry) (strong : C → ℕ) (slots : Table C) :
    ((catalog.filterMap fun entry => (slots entry.id).map fun held =>
      Admission.Loaded.of entry (busy strong held.child) held.lastUsed held.measured).map Admission.Loaded.costMib).sum =
      (catalog.map (slotCost slots)).sum := by
  induction catalog with
  | nil => rfl
  | cons entry rest ih =>
    rw [List.filterMap_cons,List.map_cons,List.sum_cons,← ih]
    cases there : slots entry.id with
    | none => simp [slotCost,there]
    | some held =>
      rw [slotCost,there]
      rfl

theorem slotCost_update {other : Entry} (slots : Table C) (held : Loaded C) :
    slotCost (Function.update slots entry.id (some held)) other =
      if other.id = entry.id then cost other held.measured else slotCost slots other := by
  by_cases this : other.id = entry.id
  · rw [slotCost,if_pos this,this,Function.update_self]
    rfl
  · rw [slotCost,if_neg this,Function.update_of_ne this]
    rfl

theorem costs_update {entries : List Entry} (distinct : (entries.map Entry.id).Nodup) (known : entry ∈ entries)
    (empty : slots entry.id = none) (held : Loaded C) :
    (entries.map (slotCost (Function.update slots entry.id (some held)))).sum =
      (entries.map (slotCost slots)).sum + cost entry held.measured := by
  induction entries with
  | nil => cases known
  | cons other rest ih =>
    rw [List.map_cons,List.nodup_cons] at distinct
    obtain ⟨fresh,distinct⟩ := distinct
    rw [List.map_cons,List.map_cons,List.sum_cons,List.sum_cons,slotCost_update]
    rcases List.mem_cons.mp known with rfl | later
    · have unchanged : rest.map (slotCost (Function.update slots entry.id (some held))) = rest.map (slotCost slots) := by
        refine List.map_congr_left fun other member => ?_
        rw [slotCost_update,if_neg]
        intro same
        exact fresh (same ▸ List.mem_map_of_mem member)
      have nothing : slotCost slots entry = 0 := by rw [slotCost,empty]; rfl
      rw [if_pos rfl,unchanged,nothing]
      omega
    · have another : other.id ≠ entry.id := by
        intro same
        exact fresh (same ▸ List.mem_map_of_mem later)
      rw [if_neg another,ih distinct later]
      omega

theorem Booted.placed (booted : Booted self slots total) (known : entry ∈ self.catalog.entries) (resident : entry.residency = .Resident)
    (empty : slots entry.id = none) {held : Loaded C} (within : cost entry held.measured = entry.memoryEstimateMib)
    (covers : self.budget.covers (total + entry.memoryEstimateMib) = true) :
    Booted self (Function.update slots entry.id (some held)) (total + entry.memoryEstimateMib) := by
  refine ⟨fun other listed loaded => ?_,?_,covers⟩
  · by_cases this : other.id = entry.id
    · have same : other = entry := List.inj_on_of_nodup_map self.catalog.distinct listed known this
      rw [same]
      exact resident
    · rw [Function.update_of_ne this] at loaded
      exact booted.pinned other listed loaded
  · rw [slotsCost,costs_update self.catalog.distinct known empty,within,← booted.costs]
    rfl

/-! ## One resident -/

theorem running_unloaded {moment : Moment C} (stamps : moment.Stamps) {id : String} (empty : slots id = none) :
    running moment id slots = (none,moment.others slots) := by
  have unloaded := stamps.none empty
  rw [running,unloaded]
  simp only [liveChild]
  rw [← unloaded,Function.update_eq_self]

/-- The slots as a call that begins with these leaves them to its first pass. -/
def asked (call : Call C) (slots : Table C) : Table C := call.queued.others (call.fast.others slots)

/-- What a call does to the slots up to the decision of its first pass. -/
def decided (call : Call C) (slots : Table C) : Table C := meanwhile (call.pass 0) (asked call slots)

theorem Boots.asked (boots : Boots self machine calls entry) (booted : Booted self slots total) :
    Booted self (asked (calls entry) slots) total := (booted.stamps boots.fast).stamps boots.queued

theorem Boots.decided (boots : Boots self machine calls entry) (booted : Booted self slots total) :
    Booted self (decided (calls entry) slots) total := ((boots.asked booted).stamps boots.weighing).stamps boots.acting

theorem Boots.decided_isSome (boots : Boots self machine calls entry) (slots : Table C) (id : String) :
    (Slots.decided (calls entry) slots id).isSome = (slots id).isSome := by
  rw [Slots.decided,meanwhile,boots.acting.isSome,boots.weighing.isSome,Slots.asked,boots.queued.isSome,boots.fast.isSome]

/-- The decision on a resident: it fits beside the others, or is refused for
    good. -/
theorem Boots.weigh (boots : Boots self machine calls entry) (booted : Booted self slots total) (empty : slots entry.id = none)
    (small : total + entry.memoryEstimateMib < 2 ^ 64) :
    (self.budget.covers (total + entry.memoryEstimateMib) = true →
      self.weigh entry ((calls entry).pass 0) slots = some .Fits) ∧
    (self.budget.covers (total + entry.memoryEstimateMib) = false →
      ∃ message, self.weigh entry ((calls entry).pass 0) slots = some (.Refuse message)) := by
  have seen := booted.stamps boots.weighing
  have sum : ((held self.catalog ((calls entry).pass 0).weighing.strong (((calls entry).pass 0).weighing.others slots)).map
      Admission.Loaded.costMib).sum = total := (held_costs _ _ _).trans seen.costs
  have absent : ¬ Admission.IsLoaded (held self.catalog ((calls entry).pass 0).weighing.strong
      (((calls entry).pass 0).weighing.others slots)) (.of entry) := by
    rintro ⟨record,member,same⟩
    obtain ⟨subject,_,found⟩ := List.mem_filterMap.mp member
    obtain ⟨loaded,there,rfl⟩ := Option.map_eq_some_iff.mp found
    have id : subject.id = entry.id := same
    rw [id,boots.weighing.none empty] at there
    cases there
  have pinned : ∀ record ∈ held self.catalog ((calls entry).pass 0).weighing.strong
      (((calls entry).pass 0).weighing.others slots), record.residency = .Resident := by
    intro record member
    obtain ⟨subject,listed,found⟩ := List.mem_filterMap.mp member
    obtain ⟨loaded,there,rfl⟩ := Option.map_eq_some_iff.mp found
    exact seen.pinned subject listed (by rw [there]; exact nofun)
  have device : ∀ f, (((calls entry).pass 0).device.map DeviceMemory.freeMib) = some f →
      (Admission.Wanted.of entry).deviceMib ≤ f ∧ f < 2 ^ 64 := by
    intro f is
    obtain ⟨reading,reads,rfl⟩ := Option.map_eq_some_iff.mp is
    exact boots.device reading reads
  have decides := Admission.admit_beside_residents absent pinned (by rw [sum]; exact small) (by rw [sum]; exact seen.covered) device
  rw [sum] at decides
  exact decides

theorem makeRoom_fits {call : Call C} (fits : self.weigh entry (call.pass 0) slots = some .Fits) (passes : ℕ) :
    self.makeRoom entry call passes 0 slots = (some (.ok ()),meanwhile (call.pass 0) slots) := by
  have asks : self.ask entry call.pass 0 slots = (.ok (some (.ok ())),meanwhile (call.pass 0) slots) := by
    rw [Router.ask,fits]
    rfl
  rw [makeRoom_answered (by rw [asks]) passes,asks]

theorem makeRoom_refuses {call : Call C} {message : String} (refused : self.weigh entry (call.pass 0) slots = some (.Refuse message))
    (passes : ℕ) : self.makeRoom entry call passes 0 slots = (some (.error (.Refused message)),meanwhile (call.pass 0) slots) := by
  have asks : self.ask entry call.pass 0 slots = (.ok (some (.error (.Refused message))),meanwhile (call.pass 0) slots) := by
    rw [Router.ask,refused]
    rfl
  rw [makeRoom_answered (by rw [asks]) passes,asks]

/-- A resident that fits is loaded, and one that does not leaves what is loaded
    alone. -/
theorem Boots.child (boots : Boots self machine calls entry) (booted : Booted self slots total) (known : entry ∈ self.catalog.entries)
    (resident : entry.residency = .Resident) (empty : slots entry.id = none) (small : total + entry.memoryEstimateMib < 2 ^ 64) :
    (self.budget.covers (total + entry.memoryEstimateMib) = true → ∃ child left,
      self.child machine entry (calls entry) slots = (some (.ok child),left) ∧
        Booted self left (total + entry.memoryEstimateMib) ∧
        ∀ id, (left id).isSome ↔ (slots id).isSome ∨ id = entry.id) ∧
    (self.budget.covers (total + entry.memoryEstimateMib) = false → ∃ message left,
      self.child machine entry (calls entry) slots = (some (.error (.Refused message)),left) ∧
        Booted self left total ∧ ∀ id, (left id).isSome = (slots id).isSome) := by
  have nothing := boots.fast.none empty
  have admits : self.child machine entry (calls entry) slots =
      self.admit machine entry (calls entry) ((calls entry).fast.others slots) := by
    rw [Router.child,running_unloaded boots.fast empty]
  obtain ⟨model,filed⟩ := boots.model
  obtain ⟨fits,refuses⟩ := boots.weigh (boots.asked booted) (boots.queued.none nothing) small
  constructor
  · intro covers
    obtain ⟨child,starts⟩ := boots.starts
    have started : self.start machine entry (calls entry) =
        .ok ⟨child,(calls entry).placing.now,(calls entry).measured⟩ := by
      rw [Router.start,starts]
      rfl
    have vacant : Slots.decided (calls entry) slots entry.id = none := by
      have same := boots.decided_isSome slots entry.id
      rw [empty] at same
      simpa using same
    let loaded : Loaded C := ⟨child,(calls entry).placing.now,(calls entry).measured⟩
    have placed : Booted self (Function.update ((calls entry).placing.others (Slots.decided (calls entry) slots)) entry.id (some loaded))
        (total + entry.memoryEstimateMib) :=
      ((boots.decided booted).stamps boots.placing).placed known resident (boots.placing.none vacant) boots.measured covers
    have made := makeRoom_fits (fits covers) (calls entry).passes
    rw [Slots.asked] at made
    refine ⟨child,_,?_,placed,fun id => ?_⟩
    · rw [admits, Router.admit,running_unloaded boots.queued nothing,filed]
      dsimp only
      rw [made,started]
      rfl
    · by_cases this : id = entry.id
      · simp [this]
      · rw [Function.update_of_ne this,boots.placing.isSome,boots.decided_isSome]
        simp [this]
  · intro uncovered
    obtain ⟨message,refused⟩ := refuses uncovered
    have made := makeRoom_refuses refused (calls entry).passes
    rw [Slots.asked] at made
    refine ⟨message,_,?_,boots.decided booted,fun id => boots.decided_isSome slots id⟩
    rw [admits, Router.admit,running_unloaded boots.queued nothing,filed]
    dsimp only
    rw [made]
    rfl

/-! ## The whole boot -/

/-- What a failure reports names its entry. -/
def Reports (entry : Entry) (failure : String) : Prop := ∃ message : String, failure = s!"{entry.id}: {message}"

/-- From some residents on, the boot loads those that fit, reports the others in
    their order, and takes nothing away. -/
theorem loadEach_boots {entries : List Entry} (known : ∀ entry ∈ entries, entry ∈ self.catalog.entries ∧ entry.residency = .Resident)
    (distinct : (entries.map Entry.id).Nodup) (boots : ∀ entry ∈ entries, Boots self machine calls entry)
    (booted : Booted self slots total) (empty : ∀ entry ∈ entries, slots entry.id = none)
    (small : total + (entries.map Entry.memoryEstimateMib).sum < 2 ^ 64) : ∃ failures left,
    self.loadEach machine calls entries slots = (some failures,left) ∧
      List.Forall₂ Reports (boot self.budget total entries).2 failures ∧
      ∀ id, (left id).isSome ↔ (slots id).isSome ∨ ∃ entry ∈ (boot self.budget total entries).1, entry.id = id := by
  induction entries generalizing slots total with
  | nil => exact ⟨[],slots,rfl,.nil,fun id => by simp [boot]⟩
  | cons entry rest ih =>
    rw [List.map_cons,List.nodup_cons] at distinct
    obtain ⟨fresh,distinct⟩ := distinct
    rw [List.map_cons,List.sum_cons] at small
    obtain ⟨listed,resident⟩ := known entry (List.mem_cons_self ..)
    have later (other : Entry) (member : other ∈ rest) : other.id ≠ entry.id := by
      intro same
      exact fresh (same ▸ List.mem_map_of_mem member)
    obtain ⟨fits,refuses⟩ := (boots entry (List.mem_cons_self ..)).child booted listed resident (empty entry (List.mem_cons_self ..))
      (by omega)
    cases covers : self.budget.covers (total + entry.memoryEstimateMib) with
    | true =>
      obtain ⟨child,left,came,booted,there⟩ := fits covers
      obtain ⟨failures,last,loads,reports,loaded⟩ := ih (fun other member => known other (List.mem_cons_of_mem _ member)) distinct
        (fun other member => boots other (List.mem_cons_of_mem _ member)) booted (fun other member => by
          have unloaded : ¬ ((left other.id).isSome = true) := by
            rw [there,empty other (List.mem_cons_of_mem _ member)]
            simpa using later other member
          simpa using unloaded) (by omega)
      refine ⟨failures,last,?_,?_,fun id => ?_⟩
      · rw [Router.loadEach,came]
        exact loads
      · rw [boot,if_pos covers]
        exact reports
      · rw [boot,if_pos covers,loaded,there]
        simp only [List.exists_mem_cons_iff,or_assoc,eq_comm]
    | false =>
      obtain ⟨message,left,came,booted,there⟩ := refuses covers
      obtain ⟨failures,last,loads,reports,loaded⟩ := ih (fun other member => known other (List.mem_cons_of_mem _ member)) distinct
        (fun other member => boots other (List.mem_cons_of_mem _ member)) booted (fun other member => by
          have unloaded := there other.id
          rw [empty other (List.mem_cons_of_mem _ member)] at unloaded
          simpa using unloaded) (by omega)
      have uncovered : ¬ self.budget.covers (total + entry.memoryEstimateMib) = true := by rw [covers]; exact Bool.noConfusion
      refine ⟨s!"{entry.id}: {message}" :: failures,last,?_,?_,fun id => ?_⟩
      · rw [Router.loadEach,came]
        dsimp only
        rw [loads]
        rfl
      · rw [boot,if_neg uncovered]
        exact .cons ⟨message,rfl⟩ reports
      · rw [boot,if_neg uncovered,loaded,there]

/-- Everything fits exactly where the estimates together do. -/
theorem boot_all_iff {budget : Budget} {total : ℕ} (entries : List Entry) (covered : budget.covers total = true) :
    (boot budget total entries).2 = [] ↔ budget.covers (total + (entries.map Entry.memoryEstimateMib).sum) = true := by
  induction entries generalizing total with
  | nil => simpa [boot] using covered
  | cons entry rest ih =>
    rw [List.map_cons,List.sum_cons,← Nat.add_assoc]
    by_cases covers : budget.covers (total + entry.memoryEstimateMib) = true
    · rw [boot,if_pos covers]
      exact ih covers
    · rw [boot,if_neg covers]
      refine iff_of_false (List.cons_ne_nil _ _) fun all => covers ?_
      exact Admission.covers_mono (Nat.le_add_right _ _) all

/-- Where nothing but the budget keeps a resident from being loaded, the boot
    loads the residents that fit one after another, in the order of the catalog
    and at their estimates, reports every other one in that order, and loads
    nothing else. It reports none exactly where the budget covers what the
    residents reserve together. -/
theorem residents_load (self : Router) (machine : Launch.Machine) (calls : Entry → Call C)
    (boots : ∀ entry ∈ residents self.catalog, Boots self machine calls entry)
    (small : self.catalog.residentReservationMib < 2 ^ 64) : ∃ failures left,
    self.load machine calls (fun _ => none) = (some failures,left) ∧
      List.Forall₂ Reports (boot self.budget 0 (residents self.catalog)).2 failures ∧
      (∀ id, (left id).isSome ↔ ∃ entry ∈ (boot self.budget 0 (residents self.catalog)).1, entry.id = id) ∧
      (failures = [] ↔ self.budget.covers self.catalog.residentReservationMib = true) := by
  have known : ∀ entry ∈ residents self.catalog, entry ∈ self.catalog.entries ∧ entry.residency = .Resident := by
    intro entry member
    obtain ⟨listed,resident⟩ := List.mem_filter.mp member
    exact ⟨listed,of_decide_eq_true resident⟩
  have distinct : ((residents self.catalog).map Entry.id).Nodup :=
    self.catalog.distinct.sublist (List.filter_sublist.map Entry.id)
  have covered : self.budget.covers 0 = true := Admission.covers_iff.mpr fun limit _ => Nat.zero_le limit
  have free (entry : Entry) : slotCost (fun _ => (none : Slot C)) entry = 0 := rfl
  have booted : Booted self (fun _ => (none : Slot C)) 0 := by
    refine ⟨fun _ _ loaded => absurd rfl loaded,?_,covered⟩
    refine List.sum_eq_zero fun mib member => ?_
    obtain ⟨entry,_,rfl⟩ := List.mem_map.mp member
    exact free entry
  have small' : 0 + ((residents self.catalog).map Entry.memoryEstimateMib).sum < 2 ^ 64 := by
    rw [Nat.zero_add]
    exact small
  obtain ⟨failures,left,loads,reports,loaded⟩ := loadEach_boots known distinct boots booted (fun _ _ => rfl) small'
  refine ⟨failures,left,loads,reports,fun id => by simpa using loaded id,?_⟩
  have all := boot_all_iff (residents self.catalog) covered
  rw [Nat.zero_add] at all
  have same : self.budget.covers self.catalog.residentReservationMib =
      self.budget.covers ((residents self.catalog).map Entry.memoryEstimateMib).sum := rfl
  rw [same,← all,← List.length_eq_zero_iff,← List.length_eq_zero_iff,reports.length_eq]

end

/-! ## Two residents in a budget for one of them -/

def pinned (id : String) : Entry := { small id none with residency := .Resident }

def bootRouter : Router where
  catalog := ⟨[pinned "first",pinned "second"],by decide⟩
  budget := ⟨some 10⟩
  wait := 0
  server := ⟨"/bin/llama-server"⟩
  root := "/models"

theorem pinned_boots (entry : Entry) (member : entry ∈ residents bootRouter.catalog) :
    Boots bootRouter ⟨fun _ => true,none⟩ (fun _ => Call.quiet 1) entry := by
  have either : entry = pinned "first" ∨ entry = pinned "second" := by simpa [residents,bootRouter,pinned,small] using member
  refine ⟨fun _ _ => rfl,fun _ _ => rfl,fun _ _ => rfl,fun _ _ => rfl,fun _ _ => rfl,?_,nofun,?_,?_⟩
  · exact ⟨_,rfl⟩
  · rcases either with rfl | rfl <;> exact ⟨1,rfl⟩
  · rcases either with rfl | rfl <;> rfl

/-- The first is loaded, and the second is reported. -/
theorem second_resident_reported : ∃ failure left,
    bootRouter.load ⟨fun _ => true,none⟩ (fun _ => Call.quiet 1) (fun _ => none) = (some [failure],left) ∧
      Reports (pinned "second") failure ∧ (left "first").isSome = true := by
  obtain ⟨failures,left,loads,reports,loaded,_⟩ :=
    residents_load bootRouter ⟨fun _ => true,none⟩ (fun _ => Call.quiet 1) pinned_boots (by decide)
  have plan : boot bootRouter.budget 0 (residents bootRouter.catalog) = ([pinned "first"],[pinned "second"]) := by decide
  rw [plan] at reports loaded
  obtain ⟨failure,rest,named,none_left,rfl⟩ := List.forall₂_cons_left_iff.mp reports
  cases none_left
  exact ⟨failure,left,loads,named,(loaded "first").mpr ⟨_,List.mem_singleton_self _,rfl⟩⟩

end Maestro.Slots
