import Maestro.Checked
import Maestro.Catalog
import Mathlib.Data.List.Sort

/-!
# Deciding what may be loaded, and what must be unloaded first

`Budget.admit` takes a budget, what is loaded, what is wanted and what the
device has free, and decides. Figures are `u64` mebibytes: an operation that
leaves the range panics, and a decision that panics is `none`.
-/
namespace Maestro.Admission

/-- One model the router has loaded, as admission needs to see it. -/
structure Loaded where
  id : String
  costMib : Nat
  deviceMib : Nat
  residency : Residency
  busy : Bool
  lastUsed : Nat
deriving DecidableEq, Repr

structure Wanted where
  id : String
  costMib : Nat
  deviceMib : Nat
deriving DecidableEq, Repr

structure Budget where
  limitMib : Option Nat
deriving DecidableEq, Repr

inductive Decision
  | Fits
  | Unload (ids : List String)
  | Blocked (message : String)
  | Refuse (message : String)
deriving DecidableEq, Repr

/-! ## The subjects of a decision -/

/-- The flags that keep every layer off the device, in three spellings. -/
def layersOnDevice : List String := ["n-gpu-layers", "ngl", "gpu-layers"]

/-- What an entry is expected to hold on the device: its whole estimate,
    unless its flags keep every layer off it. -/
def deviceNeedMib (entry : Entry) : Nat :=
  if layersOnDevice.any fun key => (entry.flags.lookup key).any fun value => Text.trimString value = "0" then 0
  else entry.memoryEstimateMib

/-- What admission needs to know about one entry that is loaded. The
    measurement raises the cost and never lowers it. -/
def Loaded.of (entry : Entry) (busy : Bool) (lastUsed : Nat) (measured : Measurement) : Loaded :=
  let estimate := entry.memoryEstimateMib
  let offDevice := deviceNeedMib entry = 0
  let measuredCost := if offDevice then measured.deviceMib else measured.largestMib
  { id := entry.id
    costMib := measuredCost.elim estimate fun mib => max mib estimate
    deviceMib := measured.deviceMib.getD (deviceNeedMib entry)
    residency := entry.residency
    busy := busy
    lastUsed := lastUsed }

def Wanted.of (entry : Entry) : Wanted :=
  { id := entry.id, costMib := entry.memoryEstimateMib, deviceMib := deviceNeedMib entry }

/-- Admission charges a loaded entry at least its estimate. -/
theorem Loaded.estimate_le_cost (entry : Entry) (busy : Bool) (lastUsed : Nat) (measured : Measurement) :
    entry.memoryEstimateMib ≤ (Loaded.of entry busy lastUsed measured).costMib := by
  simp only [Loaded.of]
  cases (if deviceNeedMib entry = 0 then measured.deviceMib else measured.largestMib) with
  | none => exact le_rfl
  | some mib => exact le_max_right mib _

/-! ## The room there is -/

structure Room where
  limit : Option Nat
  held : Nat
  deviceFree : Option Nat
deriving DecidableEq, Repr

/-- What unloading the candidates chosen so far would give back. -/
structure Freed where
  cost : Nat
  device : Nat
deriving DecidableEq, Repr

inductive Short
  | Ledger
  | Device
deriving DecidableEq, Repr

def Room.ledgerFits (self : Room) (wanted : Wanted) (freed : Freed) : Option Bool :=
  match self.limit with
  | none => some true
  | some limit => (Checked.add 64 (self.held - freed.cost) wanted.costMib).map fun cost => cost ≤ limit

def Room.deviceFits (self : Room) (wanted : Wanted) (freed : Freed) : Option Bool :=
  match self.deviceFree with
  | none => some true
  | some free => (Checked.add 64 free freed.device).map fun room => wanted.deviceMib ≤ room

/-- Which side is still short once `freed` is given back, the ledger first. -/
def Room.short (self : Room) (wanted : Wanted) (freed : Freed) : Option (Option Short) := do
  let ledgerFits ← self.ledgerFits wanted freed
  let deviceFits ← self.deviceFits wanted freed
  match ledgerFits, deviceFits with
  | false, _ => some (some .Ledger)
  | true, false => some (some .Device)
  | true, true => some none

def whyStays : Residency → Bool → String
  | _, true => ", busy"
  | .Resident, _ => ", resident"
  | .OnDemand, false => ""

/-- What is holding the memory, and why each one is staying. -/
def holders (loaded : List Loaded) : String :=
  ", ".intercalate (loaded.map fun entry => s!"{entry.id} ({entry.costMib} MiB{whyStays entry.residency entry.busy})")

def residents (loaded : List Loaded) : List Loaded := loaded.filter fun entry => entry.residency = .Resident

/-- The refusal that is a property of the catalog rather than of the moment. -/
def neverLoads (wanted : Wanted) (limit reserved left : Nat) (loaded : List Loaded) : String :=
  let names := ", ".intercalate ((residents loaded).map Loaded.id)
  s!"'{wanted.id}' needs {wanted.costMib} MiB and can never load: of the budget's {limit} MiB, {reserved} MiB " ++
    s!"is permanently reserved by resident entries ({names}), leaving {left}. Unloading the rest would not be enough " ++
    "and waiting cannot help -- make one of those entries on-demand, or lower this one's estimate or context"

def heldBy (wanted : Wanted) (limit : Nat) (loaded : List Loaded) : String :=
  s!"'{wanted.id}' needs {wanted.costMib} MiB and the budget of {limit} MiB is held by: {holders loaded}"

def deviceHeld (wanted : Wanted) (free once : Nat) (loaded : List Loaded) : String :=
  s!"'{wanted.id}' needs {wanted.deviceMib} MiB on the device, which has {free} MiB free and would have {once} MiB " ++
    "once every idle model was unloaded; the rest is held by something outside this router" ++
    (if loaded.isEmpty then "" else s!", beside: {holders loaded}")

/-- Why nothing more can be done, naming whichever side said no. -/
def Room.refusal (self : Room) (short : Short) (wanted : Wanted) (freed : Freed) (loaded : List Loaded) :
    Option String :=
  match short with
  | .Ledger => do
    let limit := self.limit.getD 0
    let reserved ← Checked.sum 64 ((residents loaded).map Loaded.costMib)
    let needed ← Checked.add 64 wanted.costMib reserved
    if needed > limit then
      let left ← Checked.sub limit reserved
      some (neverLoads wanted limit reserved left loaded)
    else
      some (heldBy wanted limit loaded)
  | .Device => do
    let free := self.deviceFree.getD 0
    let once ← Checked.add 64 free freed.device
    some (deviceHeld wanted free once loaded)

/-! ## The decision -/

def tooLarge (wanted : Wanted) (limit : Nat) : String :=
  s!"'{wanted.id}' is estimated at {wanted.costMib} MiB, which is more than the whole budget of {limit} MiB; " ++
    "nothing can be unloaded to make it fit"

/-- On-demand, idle, and not the entry being asked for. -/
def isCandidate (wanted : Wanted) (entry : Loaded) : Bool :=
  entry.residency = .OnDemand && !entry.busy && entry.id ≠ wanted.id

/-- The candidates, coldest first; the sort is stable. -/
def candidates (loaded : List Loaded) (wanted : Wanted) : List Loaded :=
  (loaded.filter (isCandidate wanted)).insertionSort fun a b => a.lastUsed ≤ b.lastUsed

/-- The loop over the candidates: each one is taken while room is short. -/
def Room.choose (self : Room) (wanted : Wanted) : List Loaded → Freed → List String → Option (Freed × List String)
  | [], freed, unload => some (freed, unload)
  | candidate :: rest, freed, unload => do
    match ← self.short wanted freed with
    | none => some (freed, unload)
    | some _ =>
      let cost ← Checked.add 64 freed.cost candidate.costMib
      let device ← Checked.add 64 freed.device candidate.deviceMib
      self.choose wanted rest ⟨cost, device⟩ (unload ++ [candidate.id])

/-- Whether something holding the room would be a candidate if it were idle. -/
def freesItself (loaded : List Loaded) (wanted : Wanted) : Bool :=
  loaded.any fun entry => entry.residency = .OnDemand && entry.busy && entry.id ≠ wanted.id

/-- The decision once the entry is neither loaded nor larger than the budget. -/
def Budget.weigh (self : Budget) (loaded : List Loaded) (wanted : Wanted) (deviceFreeMib : Option Nat) :
    Option Decision := do
  let held ← Checked.sum 64 (loaded.map Loaded.costMib)
  let room : Room := ⟨self.limitMib, held, deviceFreeMib⟩
  match ← room.short wanted ⟨0, 0⟩ with
  | none => some .Fits
  | some _ =>
    let (freed, unload) ← room.choose wanted (candidates loaded wanted) ⟨0, 0⟩ []
    match ← room.short wanted freed with
    | none => some (.Unload unload)
    | some short =>
      let message ← room.refusal short wanted freed loaded
      some (if freesItself loaded wanted then .Blocked message else .Refuse message)

/-- Whether the wanted entry may be loaded, and what must go first. -/
def Budget.admit (self : Budget) (loaded : List Loaded) (wanted : Wanted) (deviceFreeMib : Option Nat) :
    Option Decision :=
  if loaded.any fun held => held.id = wanted.id then some .Fits
  else match self.limitMib with
    | some limit =>
      if wanted.costMib > limit then some (.Refuse (tooLarge wanted limit))
      else self.weigh loaded wanted deviceFreeMib
    | none => self.weigh loaded wanted deviceFreeMib

end Maestro.Admission
