import Maestro.Selection
import Maestro.Admission
import Mathlib.Algebra.Order.Monoid.Prod
import Mathlib.Algebra.Order.Group.Nat
import Mathlib.Data.Nat.Find

/-!
# Admission is the shortest sufficient prefix of the candidates

What `Budget.admit` decides, in unbounded arithmetic: `RoomAfter` is that both
sides have room once a list of entries is unloaded, `Calculable` that no
operation of the call leaves its range.
-/
namespace Maestro.Admission
open Maestro.Selection

/-- What unloading an entry gives back on the ledger and on the device. -/
def footprint (entry : Loaded) : ℕ × ℕ := (entry.costMib, entry.deviceMib)

theorem total_footprint (xs : List Loaded) :
    total footprint xs = ((xs.map Loaded.costMib).sum, (xs.map Loaded.deviceMib).sum) := by
  induction xs with
  | nil => rfl
  | cons x xs ih => simp [ih,footprint]

section Short
variable (room : Room) (wanted : Wanted)

def Room.ledgerRoom (freed : ℕ × ℕ) : Bool :=
  room.limit.all fun limit => room.held - freed.1 + wanted.costMib ≤ limit

def Room.deviceRoom (freed : ℕ × ℕ) : Bool := room.deviceFree.all fun free => wanted.deviceMib ≤ free + freed.2

/-- Both sides have room once `freed` is given back. -/
def Room.fits (freed : ℕ × ℕ) : Bool := room.ledgerRoom wanted freed && room.deviceRoom wanted freed

/-- The side that lacks room, the ledger first. -/
def Room.lack (freed : ℕ × ℕ) : Option Short :=
  if room.ledgerRoom wanted freed then (if room.deviceRoom wanted freed then none else some .Device)
  else some .Ledger

def Room.LedgerInRange (freed : ℕ × ℕ) : Prop :=
  ∀ limit, room.limit = some limit → room.held - freed.1 + wanted.costMib < 2 ^ 64

def Room.DeviceInRange (freed : ℕ × ℕ) : Prop := ∀ free, room.deviceFree = some free → free + freed.2 < 2 ^ 64

/-- The sums that `Room.short` forms stay in range. -/
def Room.InRange (freed : ℕ × ℕ) : Prop := room.LedgerInRange wanted freed ∧ room.DeviceInRange freed

variable {room wanted} {freed : ℕ × ℕ}

theorem lack_none_iff : room.lack wanted freed = none ↔ room.fits wanted freed = true := by
  unfold Room.lack Room.fits
  split_ifs with ledger device <;> simp_all

theorem lack_ledger_iff : room.lack wanted freed = some .Ledger ↔ room.ledgerRoom wanted freed = false := by
  unfold Room.lack
  split_ifs with ledger device <;> simp_all

theorem ledgerFits_in_range (inside : room.LedgerInRange wanted freed) :
    room.ledgerFits wanted ⟨freed.1,freed.2⟩ = some (room.ledgerRoom wanted freed) := by
  cases limit : room.limit with
  | none => simp [Room.ledgerFits,Room.ledgerRoom,limit]
  | some l => simp [Room.ledgerFits,Room.ledgerRoom,limit,Checked.add_of_lt (inside l limit)]

theorem ledgerFits_out_of_range (outside : ¬ room.LedgerInRange wanted freed) :
    room.ledgerFits wanted ⟨freed.1,freed.2⟩ = none := by
  simp only [Room.LedgerInRange,not_forall] at outside
  obtain ⟨limit,is,exceeds⟩ := outside
  simp [Room.ledgerFits,is,Checked.add_of_ge exceeds]

theorem deviceFits_in_range (inside : room.DeviceInRange freed) :
    room.deviceFits wanted ⟨freed.1,freed.2⟩ = some (room.deviceRoom wanted freed) := by
  cases free : room.deviceFree with
  | none => simp [Room.deviceFits,Room.deviceRoom,free]
  | some f => simp [Room.deviceFits,Room.deviceRoom,free,Checked.add_of_lt (inside f free)]

theorem deviceFits_out_of_range (outside : ¬ room.DeviceInRange freed) :
    room.deviceFits wanted ⟨freed.1,freed.2⟩ = none := by
  simp only [Room.DeviceInRange,not_forall] at outside
  obtain ⟨free,is,exceeds⟩ := outside
  simp [Room.deviceFits,is,Checked.add_of_ge exceeds]

theorem short_in_range (inside : room.InRange wanted freed) :
    room.short wanted ⟨freed.1,freed.2⟩ = some (room.lack wanted freed) := by
  rw [Room.short,ledgerFits_in_range inside.1,deviceFits_in_range inside.2]
  cases ledger : room.ledgerRoom wanted freed <;> cases device : room.deviceRoom wanted freed <;>
    simp [Room.lack,ledger,device]

theorem short_out_of_range (outside : ¬ room.InRange wanted freed) :
    room.short wanted ⟨freed.1,freed.2⟩ = none := by
  rw [Room.short]
  by_cases ledger : room.LedgerInRange wanted freed
  · have device : ¬ room.DeviceInRange freed := fun device => outside ⟨ledger,device⟩
    simp [ledgerFits_in_range ledger,deviceFits_out_of_range device]
  · simp [ledgerFits_out_of_range ledger]

end Short

/-! ## The walk over the candidates -/

section Walk
variable (room : Room) (wanted : Wanted)

/-- No operation of the walk over `cs`, or of the question asked after it,
    leaves its range. -/
def Room.Walks : List Loaded → ℕ × ℕ → Prop
  | [], freed => room.InRange wanted freed
  | c :: cs, freed => room.InRange wanted freed ∧ (room.fits wanted freed = true ∨
      (freed.1 + c.costMib < 2 ^ 64 ∧ freed.2 + c.deviceMib < 2 ^ 64 ∧ Room.Walks cs (freed + footprint c)))

/-- In range, the loop takes the shortest sufficient prefix. -/
theorem choose_walks (cs : List Loaded) (freed : ℕ × ℕ) (named : List String) (inside : room.Walks wanted cs freed) :
    let taken := shortest (room.fits wanted) footprint freed cs
    let after := freed + total footprint taken
    room.choose wanted cs ⟨freed.1,freed.2⟩ named = some (⟨after.1,after.2⟩,named ++ taken.map Loaded.id) ∧
      room.InRange wanted after := by
  induction cs generalizing freed named with
  | nil => simpa [Room.choose,shortest,Room.Walks] using inside
  | cons c cs ih =>
    obtain ⟨here,onward⟩ := inside
    by_cases done : room.fits wanted freed = true
    · have enough := lack_none_iff.mpr done
      simp [Room.choose,shortest,short_in_range here,enough,done,here]
    · obtain fits | ⟨cost,device,rest⟩ := onward
      · exact absurd fits done
      · obtain ⟨side,lacking⟩ : ∃ side, room.lack wanted freed = some side := by
          rw [← Option.ne_none_iff_exists']
          exact fun none => done (lack_none_iff.mp none)
        obtain ⟨run,last⟩ := ih (freed + footprint c) (named ++ [c.id]) rest
        have step : room.choose wanted (c :: cs) ⟨freed.1,freed.2⟩ named =
            room.choose wanted cs ⟨(freed + footprint c).1,(freed + footprint c).2⟩ (named ++ [c.id]) := by
          simp [Room.choose,short_in_range here,lacking,Checked.add_of_lt cost,Checked.add_of_lt device,
            footprint]
        have taken : shortest (room.fits wanted) footprint freed (c :: cs) =
            c :: shortest (room.fits wanted) footprint (freed + footprint c) cs := by
          simp [shortest,done]
        rw [step,run,taken]
        simpa [add_assoc] using last

/-- Out of range, the loop or the question after it panics. -/
theorem choose_panics (cs : List Loaded) (freed : ℕ × ℕ) (named : List String)
    (outside : ¬ room.Walks wanted cs freed) :
    (room.choose wanted cs ⟨freed.1,freed.2⟩ named).bind (fun chosen => room.short wanted chosen.1) = none := by
  induction cs generalizing freed named with
  | nil => simpa [Room.choose] using short_out_of_range outside
  | cons c cs ih =>
    by_cases here : room.InRange wanted freed
    · have lacking : room.lack wanted freed ≠ none := fun none =>
        outside ⟨here,.inl (lack_none_iff.mp none)⟩
      obtain ⟨side,is⟩ := Option.ne_none_iff_exists'.mp lacking
      by_cases cost : freed.1 + c.costMib < 2 ^ 64
      · by_cases device : freed.2 + c.deviceMib < 2 ^ 64
        · have later := ih (freed + footprint c) (named ++ [c.id])
            (fun rest => outside ⟨here,.inr ⟨cost,device,rest⟩⟩)
          simpa [Room.choose,short_in_range here,is,Checked.add_of_lt cost,Checked.add_of_lt device,
            footprint] using later
        · simp [Room.choose,short_in_range here,is,Checked.add_of_lt cost,Checked.add_of_ge device]
      · simp [Room.choose,short_in_range here,is,Checked.add_of_ge cost]
    · simp [Room.choose,short_out_of_range here]

theorem walks_of_short_none {cs : List Loaded} {freed : ℕ × ℕ} (enough : room.short wanted ⟨freed.1,freed.2⟩ = some none) :
    room.Walks wanted cs freed := by
  have inside : room.InRange wanted freed := by
    by_contra outside
    rw [short_out_of_range outside] at enough
    cases enough
  have done : room.fits wanted freed = true := by
    rw [short_in_range inside] at enough
    exact lack_none_iff.mp (Option.some.inj enough)
  cases cs with
  | nil => exact inside
  | cons c cs => exact ⟨inside,.inl done⟩

/-- The walk stays in range exactly when every sum it reaches does. -/
theorem walks_iff (cs : List Loaded) (freed : ℕ × ℕ) (cost : freed.1 < 2 ^ 64) (device : freed.2 < 2 ^ 64) :
    room.Walks wanted cs freed ↔ ∀ k ≤ cs.length,
      (∀ j < k, room.fits wanted (freed + total footprint (cs.take j)) = false) →
        room.InRange wanted (freed + total footprint (cs.take k)) ∧
        (freed + total footprint (cs.take k)).1 < 2 ^ 64 ∧ (freed + total footprint (cs.take k)).2 < 2 ^ 64 := by
  induction cs generalizing freed with
  | nil =>
    constructor
    · intro inside k le _
      have : k = 0 := by simpa using le
      subst this
      simpa using ⟨inside,cost,device⟩
    · intro all
      have last := (all 0 (Nat.zero_le _) (by simp)).1
      simpa [Room.Walks] using last
  | cons c cs ih =>
    have shift (k : ℕ) : freed + total footprint ((c :: cs).take (k + 1)) =
        freed + footprint c + total footprint (cs.take k) := by
      simp [add_assoc]
    constructor
    · rintro ⟨here,onward⟩ k le short
      cases k with
      | zero => simpa using ⟨here,cost,device⟩
      | succ k =>
        rcases onward with done | ⟨costs,devices,rest⟩
        · have notYet := short 0 (Nat.succ_pos k)
          simp [done] at notYet
        · rw [shift k]
          refine (ih _ costs devices).mp rest k (by simpa using le) (fun j less => ?_)
          rw [← shift j]
          exact short (j + 1) (by omega)
    · intro all
      have here := (all 0 (Nat.zero_le _) (by simp)).1
      refine ⟨by simpa using here,?_⟩
      by_cases done : room.fits wanted freed = true
      · exact .inl done
      · have first := all 1 (by simp) (fun j less => by
          have : j = 0 := by omega
          subst this
          simpa using done)
        rw [shift 0] at first
        have costs : (freed + footprint c).1 < 2 ^ 64 := by simpa using first.2.1
        have devices : (freed + footprint c).2 < 2 ^ 64 := by simpa using first.2.2
        refine .inr ⟨costs,devices,(ih _ costs devices).mpr (fun k le short => ?_)⟩
        rw [← shift k]
        refine all (k + 1) (by simpa using le) (fun j less => ?_)
        cases j with
        | zero => simpa using done
        | succ j => rw [shift j]; exact short j (by omega)

end Walk

/-! ## Which refusal a message is -/

/-- Texts that differ in front differ, whatever follows. -/
theorem differ_in_front {a b u v : List Char} (k : ℕ) (a_long : k ≤ a.length) (b_long : k ≤ b.length)
    (differ : a.take k ≠ b.take k) : a ++ u ≠ b ++ v := by
  intro same
  have front := congrArg (List.take k) same
  rw [List.take_append_of_le_length a_long,List.take_append_of_le_length b_long] at front
  exact differ front

theorem neverLoads_ne_heldBy (wanted : Wanted) (limit reserved left other : ℕ) (loaded : List Loaded) :
    neverLoads wanted limit reserved left loaded ≠ heldBy wanted other loaded := by
  intro same
  delta neverLoads heldBy at same
  have chars := congrArg String.toList same
  simp only [String.toList_append,List.append_assoc,List.append_cancel_left_eq] at chars
  exact differ_in_front 10 (by decide) (by decide) (by decide) chars

theorem neverLoads_ne_deviceHeld (wanted : Wanted) (limit reserved left free once : ℕ) (loaded : List Loaded) :
    neverLoads wanted limit reserved left loaded ≠ deviceHeld wanted free once loaded := by
  intro same
  delta neverLoads deviceHeld at same
  have chars := congrArg String.toList same
  -- The figures may differ, so it is behind their digits that the texts do.
  have never : " MiB and can never load: of the budget's ".toList = ' ' :: "MiB and can never load: of the budget's ".toList := by
    decide
  have on_device : " MiB on the device, which has ".toList = ' ' :: "MiB on the device, which has ".toList := by decide
  simp only [String.toList_append,List.append_assoc,List.append_cancel_left_eq,toString,Nat.toList_repr,never,on_device,
    List.cons_append] at chars
  have after := Text.after_digits (by decide) (by decide) chars
  exact differ_in_front 5 (by decide) (by decide) (by decide) (List.cons.inj after).2

/-! ## The question a call asks, in unbounded arithmetic -/

section Question
variable (budget : Budget) (loaded : List Loaded) (wanted : Wanted) (free : Option ℕ)

/-- Both the ledger and the device have room once `unloaded` is given back. -/
def RoomAfter (unloaded : List Loaded) : Prop :=
  (∀ limit, budget.limitMib = some limit →
    (loaded.map Loaded.costMib).sum - (unloaded.map Loaded.costMib).sum + wanted.costMib ≤ limit) ∧
  ∀ f, free = some f → wanted.deviceMib ≤ f + (unloaded.map Loaded.deviceMib).sum

/-- What the residents cost together. -/
def reservedMib : ℕ := ((residents loaded).map Loaded.costMib).sum

/-- No operation of the call leaves the range of `u64`: the sums over what is
    held, the figure left beside the residents, and the device's sums up to the
    first prefix of the candidates that makes room. -/
structure Calculable : Prop where
  held : (loaded.map Loaded.costMib).sum < 2 ^ 64
  ledger : ∀ limit, budget.limitMib = some limit → (loaded.map Loaded.costMib).sum + wanted.costMib < 2 ^ 64
  reserved : ∀ limit, budget.limitMib = some limit → reservedMib loaded ≤ limit
  device : ∀ k ≤ (candidates loaded wanted).length,
    (∀ j < k, ¬ RoomAfter budget loaded wanted free ((candidates loaded wanted).take j)) →
      (((candidates loaded wanted).take k).map Loaded.deviceMib).sum < 2 ^ 64 ∧
      ∀ f, free = some f → f + (((candidates loaded wanted).take k).map Loaded.deviceMib).sum < 2 ^ 64

/-- The room the decision weighs. -/
def roomOf : Room := ⟨budget.limitMib,(loaded.map Loaded.costMib).sum,free⟩

/-- The candidates the loop takes. -/
def taken : List Loaded :=
  shortest ((roomOf budget loaded free).fits wanted) footprint 0 (candidates loaded wanted)

variable {budget loaded wanted free}

theorem fits_iff_roomAfter {unloaded : List Loaded} :
    (roomOf budget loaded free).fits wanted (total footprint unloaded) = true ↔
      RoomAfter budget loaded wanted free unloaded := by
  rw [total_footprint]
  cases limit : budget.limitMib <;> cases is : free <;>
    simp [Room.fits,Room.ledgerRoom,Room.deviceRoom,roomOf,RoomAfter,limit]

theorem fits_mono (room : Room) (wanted : Wanted) (a b : ℕ × ℕ) (le : a ≤ b) (fits : room.fits wanted a = true) :
    room.fits wanted b = true := by
  obtain ⟨cost,device⟩ := Prod.le_def.mp le
  rcases room with ⟨limit,held,free⟩
  cases limit <;> cases free <;>
    simp [Room.fits,Room.ledgerRoom,Room.deviceRoom] at fits ⊢ <;> omega

theorem candidates_perm : (candidates loaded wanted).Perm (loaded.filter (isCandidate wanted)) :=
  List.perm_insertionSort _ _

theorem candidates_coldest_first : (candidates loaded wanted).Pairwise fun a b => a.lastUsed ≤ b.lastUsed := by
  have : Std.Total fun a b : Loaded => a.lastUsed ≤ b.lastUsed := ⟨fun a b => Nat.le_total a.lastUsed b.lastUsed⟩
  have : IsTrans Loaded fun a b => a.lastUsed ≤ b.lastUsed := ⟨fun a b c => Nat.le_trans⟩
  exact List.pairwise_insertionSort _ _

/-- Candidates used at one time keep the order of the catalog. -/
theorem candidates_stable {colder warmer : Loaded} (ordered : colder.lastUsed ≤ warmer.lastUsed)
    (before : [colder,warmer].Sublist (loaded.filter (isCandidate wanted))) :
    [colder,warmer].Sublist (candidates loaded wanted) := by
  have : Std.Total fun a b : Loaded => a.lastUsed ≤ b.lastUsed := ⟨fun a b => Nat.le_total a.lastUsed b.lastUsed⟩
  have : IsTrans Loaded fun a b => a.lastUsed ≤ b.lastUsed := ⟨fun a b c => Nat.le_trans⟩
  exact List.pair_sublist_insertionSort ordered before

/-- The candidates and the residents are different entries. -/
theorem candidates_beside_residents (loaded : List Loaded) (wanted : Wanted) :
    ((candidates loaded wanted).map Loaded.costMib).sum + reservedMib loaded ≤ (loaded.map Loaded.costMib).sum := by
  rw [(candidates_perm.map Loaded.costMib).sum_eq,reservedMib,residents]
  induction loaded with
  | nil => simp
  | cons entry rest ih =>
    rcases residency : entry.residency with _ | _
    · simp [isCandidate,residency] at ih ⊢
      omega
    · by_cases candidate : isCandidate wanted entry = true
      · simp [candidate,residency] at ih ⊢
        omega
      · simp [candidate,residency] at ih ⊢
        omega

theorem take_cost_le (loaded : List Loaded) (wanted : Wanted) (k : ℕ) : (((candidates loaded wanted).take k).map Loaded.costMib).sum + reservedMib loaded ≤
    (loaded.map Loaded.costMib).sum := by
  have part : (((candidates loaded wanted).take k).map Loaded.costMib).sum ≤
      ((candidates loaded wanted).map Loaded.costMib).sum :=
    ((List.take_sublist k _).map Loaded.costMib).sum_le_sum (fun _ _ => Nat.zero_le _)
  have whole := candidates_beside_residents loaded wanted
  omega

theorem walks_of_calculable (fine : Calculable budget loaded wanted free) :
    (roomOf budget loaded free).Walks wanted (candidates loaded wanted) 0 := by
  rw [walks_iff _ _ _ _ (by simp) (by simp)]
  intro k le short
  have held := fine.held
  have beside := take_cost_le loaded wanted k
  have device := fine.device k le (fun j less room => by
    have notYet := short j less
    rw [zero_add,fits_iff_roomAfter.mpr room] at notYet
    exact Bool.noConfusion notYet)
  rw [zero_add,total_footprint]
  refine ⟨⟨fun limit is => ?_,fun f is => device.2 f is⟩,by simp only; omega,device.1⟩
  have ledger := fine.ledger limit is
  simp only [roomOf]
  omega

theorem calculable_of_walks (held : (loaded.map Loaded.costMib).sum < 2 ^ 64)
    (reserved : ∀ limit, budget.limitMib = some limit → reservedMib loaded ≤ limit)
    (walks : (roomOf budget loaded free).Walks wanted (candidates loaded wanted) 0) :
    Calculable budget loaded wanted free := by
  rw [walks_iff _ _ _ _ (by simp) (by simp)] at walks
  refine ⟨held,fun limit is => ?_,reserved,fun k le short => ?_⟩
  · have first := (walks 0 (Nat.zero_le _) (by simp)).1.1 limit is
    simpa [roomOf] using first
  · have here := walks k le (fun j less => by
      rw [zero_add,Bool.eq_false_iff]
      exact fun fits => short j less (fits_iff_roomAfter.mp fits))
    rw [zero_add,total_footprint] at here
    exact ⟨here.2.2,fun f is => here.1.2 f is⟩

theorem short_start (fine : Calculable budget loaded wanted free) :
    (roomOf budget loaded free).short wanted ⟨0,0⟩ = some ((roomOf budget loaded free).lack wanted 0) := by
  have inside := ((walks_iff _ _ _ _ (by simp) (by simp)).mp (walks_of_calculable fine) 0 (Nat.zero_le _) (by simp)).1
  have start := short_in_range inside
  simpa using start

theorem weigh_fits (fine : Calculable budget loaded wanted free) (room : RoomAfter budget loaded wanted free []) :
    budget.weigh loaded wanted free = some .Fits := by
  have none : (roomOf budget loaded free).lack wanted 0 = none := lack_none_iff.mpr (fits_iff_roomAfter.mpr room)
  have start := short_start fine
  rw [none,roomOf] at start
  simp [Budget.weigh,Checked.sum_of_lt fine.held,start]

/-- What the loop comes to when the call stays in range. -/
theorem weigh_chosen (fine : Calculable budget loaded wanted free) (room : ¬ RoomAfter budget loaded wanted free []) :
    let freed := total footprint (taken budget loaded wanted free)
    budget.weigh loaded wanted free =
      match (roomOf budget loaded free).lack wanted freed with
      | none => some (.Unload ((taken budget loaded wanted free).map Loaded.id))
      | some short => ((roomOf budget loaded free).refusal short wanted ⟨freed.1,freed.2⟩ loaded).map fun message =>
          if freesItself loaded wanted then .Blocked message else .Refuse message := by
  intro freed
  obtain ⟨side,lacking⟩ : ∃ side, (roomOf budget loaded free).lack wanted 0 = some side := by
    rw [← Option.ne_none_iff_exists']
    exact fun none => room (fits_iff_roomAfter.mp (lack_none_iff.mp none))
  have start := short_start fine
  obtain ⟨run,inside⟩ := choose_walks (roomOf budget loaded free) wanted _ 0 [] (walks_of_calculable fine)
  have after := short_in_range inside
  have freedIs : (0 : ℕ × ℕ) + total footprint (taken budget loaded wanted free) = freed := zero_add _
  rw [← taken,freedIs] at run after
  rw [lacking] at start
  rw [Budget.weigh,Checked.sum_of_lt fine.held]
  simp only [Option.bind_eq_bind,Option.bind_some]
  rw [← roomOf,start]
  simp only [Option.bind_some]
  rw [show (⟨0,0⟩ : Freed) = ⟨(0 : ℕ × ℕ).1,(0 : ℕ × ℕ).2⟩ from rfl,run]
  simp only [Option.bind_some,List.nil_append]
  rw [after]
  cases (roomOf budget loaded free).lack wanted freed with
  | none => rfl
  | some short =>
    simp only [Option.bind_some]
    cases (roomOf budget loaded free).refusal short wanted ⟨freed.1,freed.2⟩ loaded <;> rfl

theorem weigh_unload (fine : Calculable budget loaded wanted free) (room : ¬ RoomAfter budget loaded wanted free [])
    (enough : RoomAfter budget loaded wanted free (taken budget loaded wanted free)) :
    budget.weigh loaded wanted free = some (.Unload ((taken budget loaded wanted free).map Loaded.id)) := by
  rw [weigh_chosen fine room,lack_none_iff.mpr (fits_iff_roomAfter.mpr enough)]

/-- Where the ledger is what is short, the only figure that may not be written
    is what the residents leave. -/
theorem refusal_ledger_eq (held : (loaded.map Loaded.costMib).sum + wanted.costMib < 2 ^ 64) {limit : ℕ}
    (is : budget.limitMib = some limit) (freed : Freed) : (roomOf budget loaded free).refusal .Ledger wanted freed loaded =
      if limit < wanted.costMib + reservedMib loaded then
        (Checked.sub limit (reservedMib loaded)).map fun left => neverLoads wanted limit (reservedMib loaded) left loaded
      else some (heldBy wanted limit loaded) := by
  have beside := candidates_beside_residents loaded wanted
  have sum : Checked.sum 64 ((residents loaded).map Loaded.costMib) = some (reservedMib loaded) :=
    Checked.sum_of_lt (by rw [reservedMib] at beside; omega)
  have needed : Checked.add 64 wanted.costMib (reservedMib loaded) = some (wanted.costMib + reservedMib loaded) :=
    Checked.add_of_lt (by omega)
  simp only [Room.refusal,roomOf,is,sum,needed,Option.getD_some,Option.bind_eq_bind,Option.bind_some]
  by_cases exceeds : limit < wanted.costMib + reservedMib loaded
  · cases left : Checked.sub limit (reservedMib loaded) <;> simp [exceeds]
  · simp [exceeds]

/-- Where the ledger is what is short, the entry is said never to load exactly
    when the residents alone leave it no room. -/
theorem refusal_ledger (fine : Calculable budget loaded wanted free) {limit : ℕ} (is : budget.limitMib = some limit)
    (freed : Freed) : (roomOf budget loaded free).refusal .Ledger wanted freed loaded =
      some (if limit < wanted.costMib + reservedMib loaded then
        neverLoads wanted limit (reservedMib loaded) (limit - reservedMib loaded) loaded
      else heldBy wanted limit loaded) := by
  rw [refusal_ledger_eq (fine.ledger limit is) is,Checked.sub_of_le (fine.reserved limit is)]
  split_ifs <;> rfl

theorem refusal_device {f : ℕ} (free_is : free = some f) {freed : ℕ × ℕ} (inside : f + freed.2 < 2 ^ 64) :
    (roomOf budget loaded free).refusal .Device wanted ⟨freed.1,freed.2⟩ loaded =
      some (deviceHeld wanted f (f + freed.2) loaded) := by
  simp [Room.refusal,roomOf,free_is,Checked.add_of_lt inside]

/-- With no room after every candidate the call refuses, and says that the
    entry never loads only when the residents alone leave it no room. -/
theorem weigh_refused (fine : Calculable budget loaded wanted free)
    (short : ¬ RoomAfter budget loaded wanted free (taken budget loaded wanted free)) :
    ∃ message, budget.weigh loaded wanted free =
        some (if freesItself loaded wanted then .Blocked message else .Refuse message) ∧
      ∀ limit reserved left, message = neverLoads wanted limit reserved left loaded →
        ∃ l, budget.limitMib = some l ∧ l < wanted.costMib + reservedMib loaded := by
  have room : ¬ RoomAfter budget loaded wanted free [] := by
    intro now
    apply short
    rw [← fits_iff_roomAfter] at now ⊢
    exact fits_mono _ _ _ _ (by simp) now
  have chosen := weigh_chosen fine room
  simp only at chosen
  cases lacking : (roomOf budget loaded free).lack wanted (total footprint (taken budget loaded wanted free)) with
  | none => exact absurd (fits_iff_roomAfter.mp (lack_none_iff.mp lacking)) short
  | some side =>
    rw [lacking] at chosen
    cases side with
    | Ledger =>
      have exceeds := lack_ledger_iff.mp lacking
      obtain ⟨limit,is⟩ : ∃ limit, budget.limitMib = some limit := by
        rw [← Option.ne_none_iff_exists']
        intro none
        simp [Room.ledgerRoom,roomOf,none] at exceeds
      simp only [refusal_ledger fine is,Option.map_some] at chosen
      refine ⟨_,chosen,fun limit' reserved left named => ⟨limit,is,?_⟩⟩
      by_contra below
      rw [if_neg below] at named
      exact neverLoads_ne_heldBy _ _ _ _ _ _ named.symm
    | Device =>
      obtain ⟨f,is⟩ : ∃ f, free = some f := by
        rw [← Option.ne_none_iff_exists']
        intro none
        simp [Room.lack,Room.deviceRoom,roomOf,none] at lacking
      obtain ⟨_,inside⟩ := choose_walks (roomOf budget loaded free) wanted _ 0 [] (walks_of_calculable fine)
      rw [← taken,zero_add] at inside
      simp only [refusal_device is (inside.2 f is),Option.map_some] at chosen
      refine ⟨_,chosen,fun limit reserved left named => ?_⟩
      exact absurd named.symm (neverLoads_ne_deviceHeld _ _ _ _ _ _ _)

/-- The loop makes room exactly when some choice of candidates would. -/
theorem taken_enough_iff : RoomAfter budget loaded wanted free (taken budget loaded wanted free) ↔
    ∃ chosen, chosen.Subperm (candidates loaded wanted) ∧ RoomAfter budget loaded wanted free chosen := by
  have monotone := fits_mono (roomOf budget loaded free) wanted
  have walk := shortest_enough_iff footprint monotone 0 (candidates loaded wanted)
  rw [← taken] at walk
  simpa only [zero_add,fits_iff_roomAfter] using walk

/-- Residents beyond the limit leave the ledger short whatever is unloaded. -/
theorem short_of_reserved (free : Option ℕ) {limit : ℕ} (is : budget.limitMib = some limit) (exceeds : limit < reservedMib loaded)
    {unloaded : List Loaded} (part : unloaded <+: candidates loaded wanted) :
    (roomOf budget loaded free).ledgerRoom wanted (total footprint unloaded) = false := by
  have beside := take_cost_le loaded wanted unloaded.length
  rw [← List.prefix_iff_eq_take.mp part] at beside
  rw [total_footprint]
  simp only [Room.ledgerRoom,roomOf,is,Option.all_some,decide_eq_false_iff_not]
  omega

/-- The sentence that names what residents leave cannot be written where they
    are beyond the limit. -/
theorem refusal_panics {limit : ℕ} (held : (loaded.map Loaded.costMib).sum + wanted.costMib < 2 ^ 64)
    (is : budget.limitMib = some limit) (exceeds : limit < reservedMib loaded) (freed : Freed) :
    (roomOf budget loaded free).refusal .Ledger wanted freed loaded = none := by
  have above : limit < wanted.costMib + reservedMib loaded := by omega
  rw [refusal_ledger_eq held is,if_pos above,Checked.sub_of_gt (Nat.not_le.mpr exceeds)]
  rfl

/-- Where an operation leaves its range, the call panics. -/
theorem weigh_panics (beyond : ¬ Calculable budget loaded wanted free) : budget.weigh loaded wanted free = none := by
  by_cases held : (loaded.map Loaded.costMib).sum < 2 ^ 64
  · simp only [Budget.weigh,Checked.sum_of_lt held,Option.bind_eq_bind,Option.bind_some]
    rw [← roomOf]
    by_cases walks : (roomOf budget loaded free).Walks wanted (candidates loaded wanted) 0
    · -- The walk is fine, so it is the message that cannot be written.
      obtain ⟨limit,is,exceeds⟩ : ∃ limit, budget.limitMib = some limit ∧ limit < reservedMib loaded := by
        by_contra within
        push Not at within
        exact beyond (calculable_of_walks held within walks)
      have zero := ((walks_iff _ _ _ _ (by simp) (by simp)).mp walks 0 (Nat.zero_le _) (by simp)).1
      have start : (roomOf budget loaded free).short wanted ⟨0,0⟩ = some (some .Ledger) := by
        have now := short_in_range zero
        rw [lack_ledger_iff.mpr] at now
        · simpa using now
        · simpa using short_of_reserved free is exceeds (List.nil_prefix (l := candidates loaded wanted))
      obtain ⟨run,inside⟩ := choose_walks (roomOf budget loaded free) wanted _ 0 [] walks
      rw [← taken,zero_add] at run inside
      have lacking := lack_ledger_iff.mpr (short_of_reserved free is exceeds
        (shortest_initial ((roomOf budget loaded free).fits wanted) footprint 0 (candidates loaded wanted)))
      have after := short_in_range inside
      rw [taken,lacking] at after
      have ledger : (loaded.map Loaded.costMib).sum + wanted.costMib < 2 ^ 64 := by
        simpa [roomOf] using zero.1 limit is
      rw [show (⟨0,0⟩ : Freed) = ⟨(0 : ℕ × ℕ).1,(0 : ℕ × ℕ).2⟩ from rfl] at start ⊢
      rw [start,run]
      simp only [Option.bind_some]
      rw [taken,after]
      simp only [Option.bind_some]
      rw [refusal_panics ledger is exceeds]
      rfl
    · have panics := choose_panics (roomOf budget loaded free) wanted _ 0 [] walks
      cases start : (roomOf budget loaded free).short wanted ⟨0,0⟩ with
      | none => rfl
      | some side =>
        cases side with
        | none => exact absurd (walks_of_short_none (roomOf budget loaded free) wanted start) walks
        | some side =>
          simp only [Prod.fst_zero,Prod.snd_zero] at panics
          cases chosen : (roomOf budget loaded free).choose wanted (candidates loaded wanted) ⟨0,0⟩ [] with
          | none => simp
          | some pair =>
            rw [chosen] at panics
            simp only [Option.bind_some] at panics ⊢
            rw [panics]
            rfl
  · simp [Budget.weigh,Checked.sum_of_ge held]

theorem weigh_eq_none_iff : budget.weigh loaded wanted free = none ↔ ¬ Calculable budget loaded wanted free := by
  refine ⟨fun panics fine => ?_,weigh_panics⟩
  by_cases now : RoomAfter budget loaded wanted free []
  · rw [weigh_fits fine now] at panics
    cases panics
  · by_cases enough : RoomAfter budget loaded wanted free (taken budget loaded wanted free)
    · rw [weigh_unload fine now enough] at panics
      cases panics
    · obtain ⟨message,refused,_⟩ := weigh_refused fine enough
      rw [refused] at panics
      cases panics

end Question

/-! ## Exactness -/

section Exact
variable (budget : Budget) (loaded : List Loaded) (wanted : Wanted) (free : Option ℕ)

/-- Something is loaded under the wanted identifier. -/
def IsLoaded : Prop := ∃ entry ∈ loaded, entry.id = wanted.id

/-- The estimate alone is more than the budget. -/
def TooLarge : Prop := ∃ limit, budget.limitMib = some limit ∧ limit < wanted.costMib

/-- What the decision is to be: nothing where there is room, the least prefix
    of the coldest candidates that makes room, and a refusal where no choice of
    candidates would. -/
structure AdmitsExactly : Prop where
  fits : IsLoaded loaded wanted ∨ RoomAfter budget loaded wanted free [] → budget.admit loaded wanted free = some .Fits
  unload : ¬ IsLoaded loaded wanted → ∀ k ≤ (candidates loaded wanted).length, 0 < k →
    RoomAfter budget loaded wanted free ((candidates loaded wanted).take k) →
    (∀ j < k, ¬ RoomAfter budget loaded wanted free ((candidates loaded wanted).take j)) →
      budget.admit loaded wanted free = some (.Unload (((candidates loaded wanted).take k).map Loaded.id))
  refused : (∃ message, budget.admit loaded wanted free = some (.Blocked message) ∨
      budget.admit loaded wanted free = some (.Refuse message)) ↔
    ¬ IsLoaded loaded wanted ∧
      ∀ chosen, chosen.Subperm (candidates loaded wanted) → ¬ RoomAfter budget loaded wanted free chosen
  named : ∀ ids, budget.admit loaded wanted free = some (.Unload ids) →
    ∀ entry ∈ loaded, entry.id ∈ ids → entry.residency = .OnDemand ∧ entry.busy = false

variable {budget loaded wanted free}

theorem admit_loaded (is : IsLoaded loaded wanted) : budget.admit loaded wanted free = some .Fits := by
  obtain ⟨entry,member,same⟩ := is
  have any : (loaded.any fun held => held.id = wanted.id) = true := by
    simp only [List.any_eq_true,decide_eq_true_eq]
    exact ⟨entry,member,same⟩
  simp [ Budget.admit,any]

theorem not_any (absent : ¬ IsLoaded loaded wanted) : (loaded.any fun held => held.id = wanted.id) = false := by
  simp only [List.any_eq_false,decide_eq_true_eq]
  exact fun entry member same => absent ⟨entry,member,same⟩

theorem admit_too_large (free : Option ℕ) (absent : ¬ IsLoaded loaded wanted) {limit : ℕ} (is : budget.limitMib = some limit)
    (large : limit < wanted.costMib) : budget.admit loaded wanted free = some (.Refuse (tooLarge wanted limit)) := by
  simp [ Budget.admit,not_any absent,is,large]

theorem admit_weigh (free : Option ℕ) (absent : ¬ IsLoaded loaded wanted) (possible : ¬ TooLarge budget wanted) :
    budget.admit loaded wanted free = budget.weigh loaded wanted free := by
  cases is : budget.limitMib with
  | none => simp [ Budget.admit,not_any absent,is]
  | some limit =>
    have within : ¬ limit < wanted.costMib := fun large => possible ⟨limit,is,large⟩
    simp [ Budget.admit,not_any absent,is,within]

theorem no_room_of_too_large (large : TooLarge budget wanted) (unloaded : List Loaded) :
    ¬ RoomAfter budget loaded wanted free unloaded := by
  obtain ⟨limit,is,exceeds⟩ := large
  rintro ⟨ledger,_⟩
  have := ledger limit is
  omega

/-- More unloaded is never less room. -/
theorem RoomAfter.mono {few many : List Loaded} (room : RoomAfter budget loaded wanted free few)
    (part : few.Subperm many) : RoomAfter budget loaded wanted free many := by
  rw [← fits_iff_roomAfter] at room ⊢
  exact fits_mono _ _ _ _ (total_le_of_subperm footprint part) room

/-- The loop takes the least prefix that makes room. -/
theorem taken_eq_take {k : ℕ} (within : k ≤ (candidates loaded wanted).length)
    (room : RoomAfter budget loaded wanted free ((candidates loaded wanted).take k))
    (least : ∀ j < k, ¬ RoomAfter budget loaded wanted free ((candidates loaded wanted).take j)) :
    taken budget loaded wanted free = (candidates loaded wanted).take k := by
  refine shortest_length_eq _ _ _ _ k within ?_ (fun j less => ?_)
  · rw [zero_add,fits_iff_roomAfter]
    exact room
  · rw [zero_add,Bool.eq_false_iff]
    exact fun fits => least j less (fits_iff_roomAfter.mp fits)

theorem taken_candidate {entry : Loaded} (member : entry ∈ taken budget loaded wanted free) :
    entry ∈ loaded ∧ isCandidate wanted entry = true := by
  have candidate := (shortest_initial _ _ _ _).subset member
  rw [candidates_perm.mem_iff] at candidate
  exact List.mem_filter.mp candidate

theorem named_idle (distinct : (loaded.map Loaded.id).Nodup) {entry : Loaded} (member : entry ∈ loaded)
    (named : entry.id ∈ (taken budget loaded wanted free).map Loaded.id) :
    entry.residency = .OnDemand ∧ entry.busy = false := by
  obtain ⟨other,chosen,same⟩ := List.mem_map.mp named
  obtain ⟨inside,candidate⟩ := taken_candidate chosen
  have : other = entry := List.inj_on_of_nodup_map distinct inside member same
  subst this
  simp only [isCandidate,Bool.and_eq_true,decide_eq_true_eq,Bool.not_eq_true'] at candidate
  exact ⟨candidate.1.1,candidate.1.2⟩

theorem exact_of_loaded (is : IsLoaded loaded wanted) : AdmitsExactly budget loaded wanted free where
  fits _ := admit_loaded is
  unload absent := absurd is absent
  refused := by simp [admit_loaded is,is]
  named ids unloads := by simp [admit_loaded is] at unloads

theorem exact_of_too_large (absent : ¬ IsLoaded loaded wanted) (large : TooLarge budget wanted) :
    AdmitsExactly budget loaded wanted free := by
  obtain ⟨limit,is,exceeds⟩ := id large
  have refuses := admit_too_large free absent is exceeds
  constructor
  · rintro (already | room)
    · exact absurd already absent
    · exact absurd room (no_room_of_too_large large [])
  · intro _ k _ _ room
    exact absurd room (no_room_of_too_large large _)
  · exact ⟨fun _ => ⟨absent,fun chosen _ => no_room_of_too_large large chosen⟩,fun _ => ⟨_,.inr refuses⟩⟩
  · intro ids unloads
    simp [refuses] at unloads

theorem exact_of_calculable (distinct : (loaded.map Loaded.id).Nodup) (absent : ¬ IsLoaded loaded wanted)
    (possible : ¬ TooLarge budget wanted) (fine : Calculable budget loaded wanted free) :
    AdmitsExactly budget loaded wanted free := by
  have weighs := admit_weigh free absent possible
  by_cases now : RoomAfter budget loaded wanted free []
  · have fits := weigh_fits fine now
    rw [← weighs] at fits
    refine ⟨fun _ => fits,fun _ k _ above _ least => absurd now ?_,?_,fun ids unloads => by simp [fits] at unloads⟩
    · exact least 0 above
    · simp only [fits,Option.some.injEq,reduceCtorEq,or_self,exists_const,false_iff,not_and,not_forall,not_not]
      exact fun _ => ⟨[],List.nil_subperm,now⟩
  · by_cases enough : RoomAfter budget loaded wanted free (taken budget loaded wanted free)
    · have unload := weigh_unload fine now enough
      rw [← weighs] at unload
      refine ⟨?_,fun _ k within _ room least => ?_,?_,fun ids unloads entry member named => ?_⟩
      · rintro (already | room)
        · exact absurd already absent
        · exact absurd room now
      · rw [unload,taken_eq_take within room least]
      · simp only [unload,Option.some.injEq,reduceCtorEq,or_self,exists_const,false_iff,not_and,not_forall,not_not]
        exact fun _ => ⟨_,(shortest_initial _ _ _ _).sublist.subperm,enough⟩
      · rw [unload] at unloads
        injection unloads with unloads
        injection unloads with ids_are
        exact named_idle distinct member (ids_are ▸ named)
    · obtain ⟨message,refused,_⟩ := weigh_refused fine enough
      rw [← weighs] at refused
      have none : ∀ chosen, chosen.Subperm (candidates loaded wanted) → ¬ RoomAfter budget loaded wanted free chosen :=
        fun chosen part room => enough (taken_enough_iff.mpr ⟨chosen,part,room⟩)
      refine ⟨?_,fun _ k _ _ room => absurd room (none _ (List.take_sublist k _).subperm),?_,fun ids unloads => ?_⟩
      · rintro (already | room)
        · exact absurd already absent
        · exact absurd room now
      · refine ⟨fun _ => ⟨absent,none⟩,fun _ => ⟨message,?_⟩⟩
        rw [refused]
        by_cases frees : freesItself loaded wanted = true <;> simp [frees]
      · rw [refused] at unloads
        by_cases frees : freesItself loaded wanted = true <;> simp [frees] at unloads

/-- Exactness asks for an answer, and a call that panics gives none. -/
theorem not_exact_of_none (panics : budget.admit loaded wanted free = none) : ¬ AdmitsExactly budget loaded wanted free := by
  classical
  intro exactly
  by_cases already : IsLoaded loaded wanted
  · simpa [panics] using exactly.fits (.inl already)
  · by_cases some : ∃ k, k ≤ (candidates loaded wanted).length ∧
        RoomAfter budget loaded wanted free ((candidates loaded wanted).take k)
    · obtain ⟨within,room⟩ := Nat.find_spec some
      have least : ∀ j < Nat.find some, ¬ RoomAfter budget loaded wanted free ((candidates loaded wanted).take j) :=
        fun j less room => Nat.find_min some less ⟨by omega,room⟩
      rcases Nat.eq_zero_or_pos (Nat.find some) with zero | above
      · rw [zero,List.take_zero] at room
        simpa [panics] using exactly.fits (.inr room)
      · simpa [panics] using exactly.unload already _ within above room least
    · have refused := exactly.refused.mpr ⟨already,fun chosen part room => some ⟨_,le_rfl,?_⟩⟩
      · simp [panics] at refused
      · rw [List.take_length]
        exact room.mono part

/-- Over distinct identifiers the decision is exact where the entry is loaded,
    is larger than the whole budget, or the call can be calculated. -/
theorem admit_exact_iff (distinct : (loaded.map Loaded.id).Nodup) : AdmitsExactly budget loaded wanted free ↔
    IsLoaded loaded wanted ∨ TooLarge budget wanted ∨ Calculable budget loaded wanted free := by
  by_cases already : IsLoaded loaded wanted
  · simp [already,exact_of_loaded]
  · by_cases large : TooLarge budget wanted
    · simp [large,exact_of_too_large already large]
    · simp only [already,large,false_or]
      refine ⟨fun exactly => ?_,exact_of_calculable distinct already large⟩
      by_contra beyond
      refine not_exact_of_none ?_ exactly
      rw [admit_weigh free already large]
      exact weigh_panics beyond

theorem idle_model_unloaded_exactly :
    let idle : Loaded := ⟨"idle",6,6,.OnDemand,false,0⟩
    let held : Loaded := ⟨"held",2,2,.Resident,false,0⟩
    AdmitsExactly ⟨some 8⟩ [idle,held] ⟨"wanted",5,5⟩ (some 1) ∧
      Budget.admit ⟨some 8⟩ [idle,held] ⟨"wanted",5,5⟩ (some 1) = some (.Unload ["idle"]) := by
  refine ⟨(admit_exact_iff (by decide)).mpr (.inr (.inr ⟨by decide,?_,?_,fun k le _ => ?_⟩)),by decide⟩
  · rintro limit ⟨⟩; decide
  · rintro limit ⟨⟩; decide
  · have few : (candidates [⟨"idle",6,6,.OnDemand,false,0⟩,⟨"held",2,2,.Resident,false,0⟩] ⟨"wanted",5,5⟩).length = 1 := by
      decide
    obtain rfl | rfl : k = 0 ∨ k = 1 := by omega
    · exact ⟨by decide,by rintro f ⟨⟩; decide⟩
    · exact ⟨by decide,by rintro f ⟨⟩; decide⟩

/-- A resident measured above the whole budget makes the sentence that would
    refuse the request impossible to write. -/
theorem measured_resident_not_exact :
    ¬ AdmitsExactly ⟨some 100⟩ [⟨"held",150,150,.Resident,false,0⟩] ⟨"wanted",10,10⟩ none :=
  not_exact_of_none (by decide)

end Exact

end Maestro.Admission
