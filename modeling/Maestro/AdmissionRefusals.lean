import Maestro.AdmissionWaiting

/-!
# What a refusal says

A call that lets nothing in writes a message, and the message is arithmetic:
`Asks` is the point of the call where it is written. Costs are measured after
admission and may rise, so the residents may cost more than the ceiling.
-/
namespace Maestro.Admission
open Maestro.Selection

/-! ## The point where a message is written -/

section Asks
variable (budget : Budget) (loaded : List Loaded) (wanted : Wanted) (free : Option ℕ)

/-- The loop has taken all it will, `freed` is what that gives back, and `side`
    is still short: the call turns to `Room.refusal`. -/
structure Asks (side : Short) (freed : Freed) : Prop where
  absent : ¬ IsLoaded loaded wanted
  possible : ¬ TooLarge budget wanted
  held : (loaded.map Loaded.costMib).sum < 2 ^ 64
  start : ∃ first, (roomOf budget loaded free).short wanted ⟨0,0⟩ = some (some first)
  chosen : ∃ unload, (roomOf budget loaded free).choose wanted (candidates loaded wanted) ⟨0,0⟩ [] = some (freed,unload)
  short : (roomOf budget loaded free).short wanted freed = some (some side)

/-- The call answers with `message`, for now or for good. -/
def TurnsDown (message : String) : Prop :=
  budget.admit loaded wanted free = some (.Refuse message) ∨ budget.admit loaded wanted free = some (.Blocked message)

/-- The message is one of the two that no wait can change. -/
def SaysNever (message : String) : Prop :=
  (∃ limit, message = tooLarge wanted limit) ∨ ∃ limit reserved left, message = neverLoads wanted limit reserved left loaded

/-- Every message can be written and its figures are true: what is left beside
    the residents is the rest of the limit, or nothing, and the entry is said
    never to load exactly where the ledger is what is short and the residents
    alone leave it no room. -/
structure RefusesTruly : Prop where
  written : ∀ side freed, Asks budget loaded wanted free side freed →
    ∃ message, (roomOf budget loaded free).refusal side wanted freed loaded = some message
  ledger : ∀ freed, Asks budget loaded wanted free .Ledger freed → ∀ limit, budget.limitMib = some limit →
    (roomOf budget loaded free).refusal .Ledger wanted freed loaded =
      some (if limit < wanted.costMib + reservedMib loaded then neverLoads wanted limit (reservedMib loaded)
        (if reservedMib loaded ≤ limit then limit - reservedMib loaded else 0) loaded else heldBy wanted limit loaded)
  device : ∀ freed, Asks budget loaded wanted free .Device freed → ∃ f, free = some f ∧
    (roomOf budget loaded free).refusal .Device wanted freed loaded = some (deviceHeld wanted f (f + freed.device) loaded)
  never : ∀ message, TurnsDown budget loaded wanted free message → (SaysNever loaded wanted message ↔
    ∃ limit, budget.limitMib = some limit ∧ limit < wanted.costMib + reservedMib loaded ∧
      (TooLarge budget wanted ∨ ∃ freed, Asks budget loaded wanted free .Ledger freed))

/-- The residents cost more than the whole limit, and no sum formed before the
    message leaves its range. -/
structure Overreserved : Prop where
  absent : ¬ IsLoaded loaded wanted
  possible : ¬ TooLarge budget wanted
  beyond : ∃ limit, budget.limitMib = some limit ∧ limit < reservedMib loaded
  ledger : (loaded.map Loaded.costMib).sum + wanted.costMib < 2 ^ 64
  device : ((candidates loaded wanted).map Loaded.deviceMib).sum < 2 ^ 64
  room : ∀ f, free = some f → f + ((candidates loaded wanted).map Loaded.deviceMib).sum < 2 ^ 64

variable {budget loaded wanted free} {side : Short} {freed : Freed}

/-- A call that gets this far answers with the message, if it can be written. -/
theorem admit_of_asks (asks : Asks budget loaded wanted free side freed) : budget.admit loaded wanted free =
    ((roomOf budget loaded free).refusal side wanted freed loaded).map fun message =>
      if freesItself loaded wanted then .Blocked message else .Refuse message := by
  obtain ⟨first,start⟩ := asks.start
  obtain ⟨unload,chosen⟩ := asks.chosen
  rw [admit_weigh free asks.absent asks.possible,Budget.weigh,Checked.sum_of_lt asks.held]
  simp only [Option.bind_eq_bind,Option.bind_some]
  rw [← roomOf,start,chosen]
  simp only [Option.bind_some]
  rw [asks.short]
  simp only [Option.bind_some]
  cases (roomOf budget loaded free).refusal side wanted freed loaded <;> rfl

theorem asks_walks (asks : Asks budget loaded wanted free side freed) :
    (roomOf budget loaded free).Walks wanted (candidates loaded wanted) 0 := by
  by_contra outside
  have panics := choose_panics (roomOf budget loaded free) wanted _ 0 [] outside
  obtain ⟨unload,chosen⟩ := asks.chosen
  rw [show (⟨(0 : ℕ × ℕ).1,(0 : ℕ × ℕ).2⟩ : Freed) = ⟨0,0⟩ from rfl,chosen,Option.bind_some,asks.short] at panics
  cases panics

/-- What the loop gives back, and that the sums over it are in range. -/
theorem asks_freed (asks : Asks budget loaded wanted free side freed) :
    freed = ⟨(total footprint (taken budget loaded wanted free)).1,(total footprint (taken budget loaded wanted free)).2⟩ ∧
      (roomOf budget loaded free).InRange wanted (total footprint (taken budget loaded wanted free)) ∧
      (roomOf budget loaded free).lack wanted (total footprint (taken budget loaded wanted free)) = some side := by
  obtain ⟨run,inside⟩ := choose_walks (roomOf budget loaded free) wanted _ 0 [] (asks_walks asks)
  rw [← taken,zero_add] at run inside
  obtain ⟨unload,chosen⟩ := asks.chosen
  rw [show (⟨(0 : ℕ × ℕ).1,(0 : ℕ × ℕ).2⟩ : Freed) = ⟨0,0⟩ from rfl,chosen] at run
  obtain ⟨is,_⟩ := Prod.ext_iff.mp (Option.some.inj run)
  refine ⟨is,inside,?_⟩
  have after := asks.short
  simp only at is
  rw [is,short_in_range inside] at after
  exact Option.some.inj after

/-- A call that walks in range and still lacks room gets this far. -/
theorem asks_of_walks (absent : ¬ IsLoaded loaded wanted) (possible : ¬ TooLarge budget wanted)
    (held : (loaded.map Loaded.costMib).sum < 2 ^ 64)
    (walks : (roomOf budget loaded free).Walks wanted (candidates loaded wanted) 0)
    (lacking : (roomOf budget loaded free).lack wanted (total footprint (taken budget loaded wanted free)) = some side) :
    Asks budget loaded wanted free side
      ⟨(total footprint (taken budget loaded wanted free)).1,(total footprint (taken budget loaded wanted free)).2⟩ := by
  obtain ⟨run,inside⟩ := choose_walks (roomOf budget loaded free) wanted _ 0 [] walks
  rw [← taken,zero_add] at run inside
  have zero := ((walks_iff _ _ _ _ (by simp) (by simp)).mp walks 0 (Nat.zero_le _) (by simp)).1
  have start := short_in_range zero
  simp only [List.take_zero,total_nil,add_zero] at start
  refine ⟨absent,possible,held,?_,⟨_,run⟩,?_⟩
  · cases first : (roomOf budget loaded free).lack wanted 0 with
    | some first_side => exact ⟨first_side,by rw [first] at start; exact start⟩
    | none =>
      have fits := fits_mono _ wanted 0 (total footprint (taken budget loaded wanted free)) (by simp) (lack_none_iff.mp first)
      rw [lack_none_iff.mpr fits] at lacking
      cases lacking
  · rw [short_in_range inside,lacking]

/-- A call that turns down weighed something, and found no room. -/
theorem short_of_turnsDown {message : String} (turns : TurnsDown budget loaded wanted free message)
    (absent : ¬ IsLoaded loaded wanted) (possible : ¬ TooLarge budget wanted) :
    Calculable budget loaded wanted free ∧ ¬ RoomAfter budget loaded wanted free (taken budget loaded wanted free) := by
  have turned : TurnedDown budget loaded wanted free := ⟨message,Or.symm turns⟩
  rw [turnedDown_iff absent possible] at turned
  exact ⟨turned.1,fun enough => turned.2 (enough_iff.mp enough)⟩

/-- Every message is the one for an estimate above the whole budget, or is
    written at that point. -/
theorem turnsDown_cases {message : String} (turns : TurnsDown budget loaded wanted free message) :
    (∃ limit, budget.limitMib = some limit ∧ limit < wanted.costMib ∧ message = tooLarge wanted limit) ∨
      ∃ side freed, Asks budget loaded wanted free side freed ∧
        (roomOf budget loaded free).refusal side wanted freed loaded = some message := by
  have absent : ¬ IsLoaded loaded wanted := by
    intro already
    simp [TurnsDown,admit_loaded already] at turns
  by_cases large : TooLarge budget wanted
  · obtain ⟨limit,is,exceeds⟩ := large
    have turned := admit_too_large free absent is exceeds
    refine .inl ⟨limit,is,exceeds,?_⟩
    simp [TurnsDown,turned] at turns
    exact turns.symm
  · right
    obtain ⟨fine,short⟩ := short_of_turnsDown turns absent large
    obtain ⟨side,lacking⟩ := Option.ne_none_iff_exists'.mp fun none =>
      short (fits_iff_roomAfter.mp (lack_none_iff.mp none))
    have asks := asks_of_walks absent large fine.held (walks_of_calculable fine) lacking
    refine ⟨side,_,asks,?_⟩
    have answer := admit_of_asks asks
    cases written : (roomOf budget loaded free).refusal side wanted _ loaded with
    | none => simp [TurnsDown,answer,written] at turns
    | some other =>
      rw [TurnsDown,answer,written] at turns
      cases frees : freesItself loaded wanted <;> simp [frees] at turns <;> rw [turns]

/-! ## What each side's message says -/

theorem heldBy_ne_tooLarge (wanted : Wanted) (limit other : ℕ) (loaded : List Loaded) :
    heldBy wanted limit loaded ≠ tooLarge wanted other := by
  intro same
  delta heldBy tooLarge at same
  have chars := congrArg String.toList same
  simp only [String.toList_append,List.append_assoc,List.append_cancel_left_eq] at chars
  exact differ_in_front 3 (by decide) (by decide) (by decide) chars

theorem deviceHeld_ne_tooLarge (wanted : Wanted) (free once limit : ℕ) (loaded : List Loaded) :
    deviceHeld wanted free once loaded ≠ tooLarge wanted limit := by
  intro same
  delta deviceHeld tooLarge at same
  have chars := congrArg String.toList same
  simp only [String.toList_append,List.append_assoc,List.append_cancel_left_eq] at chars
  exact differ_in_front 3 (by decide) (by decide) (by decide) chars

theorem not_never_heldBy (limit : ℕ) : ¬ SaysNever loaded wanted (heldBy wanted limit loaded) := by
  rintro (⟨other,same⟩ | ⟨other,reserved,left,same⟩)
  · exact heldBy_ne_tooLarge wanted limit other loaded same
  · exact neverLoads_ne_heldBy wanted other reserved left limit loaded same.symm

theorem not_never_deviceHeld (f once : ℕ) : ¬ SaysNever loaded wanted (deviceHeld wanted f once loaded) := by
  rintro (⟨limit,same⟩ | ⟨limit,reserved,left,same⟩)
  · exact deviceHeld_ne_tooLarge wanted f once limit loaded same
  · exact neverLoads_ne_deviceHeld wanted limit reserved left f once loaded same.symm

/-- A ledger that is short has a limit, and the sum over what is held and
    wanted is in range. -/
theorem ledger_of_asks (asks : Asks budget loaded wanted free .Ledger freed) :
    ∃ limit, budget.limitMib = some limit ∧ (loaded.map Loaded.costMib).sum + wanted.costMib < 2 ^ 64 := by
  have exceeds := lack_ledger_iff.mp (asks_freed asks).2.2
  obtain ⟨limit,is⟩ : ∃ limit, budget.limitMib = some limit := by
    rw [← Option.ne_none_iff_exists']
    intro none
    simp [Room.ledgerRoom,roomOf,none] at exceeds
  have zero := ((walks_iff _ _ _ _ (by simp) (by simp)).mp (asks_walks asks) 0 (Nat.zero_le _) (by simp)).1
  refine ⟨limit,is,?_⟩
  simpa [roomOf] using zero.1 limit is

/-- A device that is short can say what would be free once all was unloaded. -/
theorem refusal_of_asks_device (asks : Asks budget loaded wanted free .Device freed) : ∃ f, free = some f ∧
    (roomOf budget loaded free).refusal .Device wanted freed loaded = some (deviceHeld wanted f (f + freed.device) loaded) := by
  obtain ⟨is,inside,lacking⟩ := asks_freed asks
  obtain ⟨f,here⟩ : ∃ f, free = some f := by
    rw [← Option.ne_none_iff_exists']
    intro none
    simp [Room.lack,Room.deviceRoom,roomOf,none] at lacking
  rw [is]
  exact ⟨f,here,refusal_device here (inside.2 f here)⟩

/-- Residents beyond the limit leave the ledger short at every prefix, so every
    candidate's share of the device is summed. -/
theorem overreserved_iff : Overreserved budget loaded wanted free ↔
    ∃ freed limit, Asks budget loaded wanted free .Ledger freed ∧ budget.limitMib = some limit ∧ limit < reservedMib loaded := by
  constructor
  · intro ⟨absent,possible,⟨limit,is,exceeds⟩,ledger,device,room⟩
    have walks : (roomOf budget loaded free).Walks wanted (candidates loaded wanted) 0 := by
      rw [walks_iff _ _ _ _ (by simp) (by simp)]
      intro k _ _
      have beside := take_cost_le loaded wanted k
      have part : (((candidates loaded wanted).take k).map Loaded.deviceMib).sum ≤
          ((candidates loaded wanted).map Loaded.deviceMib).sum :=
        ((List.take_sublist k _).map Loaded.deviceMib).sum_le_sum (fun _ _ => Nat.zero_le _)
      rw [zero_add,total_footprint]
      refine ⟨⟨fun l _ => ?_,fun f here => ?_⟩,by simp only; omega,by simp only; omega⟩
      · simp only [roomOf]
        omega
      · have := room f here
        simp only
        omega
    have lacking := lack_ledger_iff.mpr (short_of_reserved free is exceeds
      (shortest_initial ((roomOf budget loaded free).fits wanted) footprint 0 (candidates loaded wanted)))
    exact ⟨_,limit,asks_of_walks absent possible (by omega) walks lacking,is,exceeds⟩
  · rintro ⟨freed,limit,asks,is,exceeds⟩
    obtain ⟨_,_,ledger⟩ := ledger_of_asks asks
    have whole := (walks_iff _ _ _ _ (by simp) (by simp)).mp (asks_walks asks) (candidates loaded wanted).length le_rfl
      (fun j _ => by
        rw [zero_add,Room.fits,short_of_reserved free is exceeds (List.take_prefix j _),Bool.false_and])
    rw [zero_add,List.take_length,total_footprint] at whole
    exact ⟨asks.absent,asks.possible,⟨limit,is,exceeds⟩,ledger,whole.2.2,whole.1.2⟩

/-- Where the residents cost no more than the limit, what they leave of it can
    be formed. -/
theorem refusal_of_asks_ledger (within : ¬ Overreserved budget loaded wanted free)
    (asks : Asks budget loaded wanted free .Ledger freed) {limit : ℕ} (is : budget.limitMib = some limit) :
    reservedMib loaded ≤ limit ∧ (roomOf budget loaded free).refusal .Ledger wanted freed loaded =
      if limit < wanted.costMib + reservedMib loaded then
        some (neverLoads wanted limit (reservedMib loaded) (limit - reservedMib loaded) loaded)
      else some (heldBy wanted limit loaded) := by
  have reserved : reservedMib loaded ≤ limit := by
    by_contra beyond
    exact within (overreserved_iff.mpr ⟨freed,limit,asks,is,Nat.lt_of_not_le beyond⟩)
  obtain ⟨_,_,held⟩ := ledger_of_asks asks
  refine ⟨reserved,?_⟩
  rw [refusal_ledger_eq held is,Checked.sub_of_le reserved]
  rfl

/-- What a refusal says of the entry never loading is true of every message it
    turns down with. -/
theorem never_of_reserved (within : ¬ Overreserved budget loaded wanted free) {message : String}
    (turns : TurnsDown budget loaded wanted free message) : SaysNever loaded wanted message ↔
      ∃ limit, budget.limitMib = some limit ∧ limit < wanted.costMib + reservedMib loaded ∧
        (TooLarge budget wanted ∨ ∃ freed, Asks budget loaded wanted free .Ledger freed) := by
  rcases turnsDown_cases turns with ⟨limit,is,large,rfl⟩ | ⟨side,freed,asks,written⟩
  · refine ⟨fun _ => ⟨limit,is,by omega,.inl ⟨limit,is,large⟩⟩,fun _ => .inl ⟨limit,rfl⟩⟩
  · cases side with
    | Ledger =>
      obtain ⟨limit,is,_⟩ := ledger_of_asks asks
      rw [(refusal_of_asks_ledger within asks is).2] at written
      by_cases exceeds : limit < wanted.costMib + reservedMib loaded
      · rw [if_pos exceeds] at written
        cases written
        exact ⟨fun _ => ⟨limit,is,exceeds,.inr ⟨freed,asks⟩⟩,fun _ => .inr ⟨_,_,_,rfl⟩⟩
      · rw [if_neg exceeds] at written
        cases written
        refine ⟨fun never => absurd never (not_never_heldBy limit),?_⟩
        rintro ⟨other,other_is,above,_⟩
        rw [is] at other_is
        cases other_is
        exact absurd above exceeds
    | Device =>
      obtain ⟨f,_,device⟩ := refusal_of_asks_device asks
      rw [device] at written
      cases written
      refine ⟨fun never => absurd never (not_never_deviceHeld f _),?_⟩
      rintro ⟨_,_,_,large | ⟨other,ledger_asks⟩⟩
      · exact absurd large asks.possible
      · have one := (asks_freed asks).2.2
        rw [(asks_freed ledger_asks).2.2] at one
        cases one

/-- The message is fine wherever it can be written. -/
theorem refusesTruly_of_reserved (within : ¬ Overreserved budget loaded wanted free) :
    RefusesTruly budget loaded wanted free := by
  constructor
  · intro side freed asks
    cases side with
    | Ledger =>
      obtain ⟨limit,is,_⟩ := ledger_of_asks asks
      rw [(refusal_of_asks_ledger within asks is).2]
      split_ifs
      · exact ⟨_,rfl⟩
      · exact ⟨_,rfl⟩
    | Device =>
      obtain ⟨f,_,written⟩ := refusal_of_asks_device asks
      exact ⟨_,written⟩
  · intro freed asks limit is
    obtain ⟨reserved,written⟩ := refusal_of_asks_ledger within asks is
    rw [written,if_pos reserved]
    split_ifs <;> rfl
  · intro freed asks
    exact refusal_of_asks_device asks
  · intro message turns
    exact never_of_reserved within turns

/-- Every refusal can be written and is true exactly where the residents cost no
    more than the limit, or where nothing is to be written about them. -/
theorem refuses_truly_iff : RefusesTruly budget loaded wanted free ↔ ¬ Overreserved budget loaded wanted free := by
  refine ⟨fun truly beyond => ?_,refusesTruly_of_reserved⟩
  obtain ⟨freed,limit,asks,is,exceeds⟩ := overreserved_iff.mp beyond
  obtain ⟨message,written⟩ := truly.written _ _ asks
  rw [refusal_panics beyond.ledger is exceeds] at written
  cases written

/-- One resident measured above the budget, and one request. -/
theorem overreserved_not_written : ¬ RefusesTruly ⟨some 100⟩ [⟨"held",150,150,.Resident,false,0⟩] ⟨"wanted",10,10⟩ none := by
  intro truly
  have asks : Asks ⟨some 100⟩ [⟨"held",150,150,.Resident,false,0⟩] ⟨"wanted",10,10⟩ none .Ledger ⟨0,0⟩ :=
    ⟨by rintro ⟨entry,member,same⟩; simp at member; subst member; simp at same,by rintro ⟨limit,⟨⟩,large⟩; exact absurd large (by decide),by decide,
      ⟨.Ledger,by decide⟩,⟨[],by decide⟩,by decide⟩
  obtain ⟨message,written⟩ := truly.written _ _ asks
  have panics : (roomOf ⟨some 100⟩ [⟨"held",150,150,.Resident,false,0⟩] none).refusal .Ledger ⟨"wanted",10,10⟩ ⟨0,0⟩
      [⟨"held",150,150,.Resident,false,0⟩] = none := by decide
  rw [panics] at written
  cases written

end Asks

end Maestro.Admission
