import Maestro.Loaded
import Maestro.Launch
import Maestro.MakeRoom
import Maestro.AdmissionRoom
import Mathlib.Logic.Function.Basic

/-!
# One call for the child that serves an entry

The call runs alone but for the requests that read what is already loaded: they
take and drop references and stamp when a child was last used, and they move no
child. What they have done is told for each moment at which the call looks at a
slot.
-/
namespace Maestro.Slots
open Admission (Budget Decision Wanted)

/-- Every entry's slot. -/
abbrev Table (C : Type) := String → Slot C

section
variable {C : Type}

/-- Every occupied slot, seen through `project`, in catalog order. -/
def snapshot {T : Type} (catalog : Catalog) (project : Entry → Loaded C → T) (slots : Table C) : List T :=
  catalog.entries.filterMap fun entry => (slots entry.id).map (project entry)

/-- What is loaded now, as admission needs to see it. -/
def held (catalog : Catalog) (strong : C → ℕ) (slots : Table C) : List Admission.Loaded :=
  snapshot catalog (fun entry held => .of entry (busy strong held.child) held.lastUsed held.measured) slots

/-- Unloads the named entries, or names the one that stopped it. -/
def unload (strong : C → ℕ) : List String → Table C → Option String × Table C
  | [], slots => (none, slots)
  | id :: ids, slots =>
    match takeIfIdle strong (fun _ => true) (slots id) with
    | (.Taken _, slot) => unload strong ids (Function.update slots id slot)
    | (.Busy, _) => (some id, slots)
    | (.Empty, _) => unload strong ids slots

end

/-- One moment of a call: what others have done to the slots until then, who
    holds references, which processes are alive, and the time. -/
structure Moment (C : Type) where
  others : Table C → Table C
  keeps : ∀ slots id, (others slots id).map Loaded.child = (slots id).map Loaded.child
  strong : C → ℕ
  check : C → Liveness
  now : ℕ

/-- One pass of the wait for room: what the device says, the moment the slots
    are weighed and the moment the pass acts on its decision. -/
structure Pass (C : Type) where
  device : Option DeviceMemory
  weighing : Moment C
  acting : Moment C

/-- What a call meets: the fast path, the check under the admission lock, the
    passes and how many of them begin before the deadline, the attempts to
    start, the measurement, and the moment of the insertion. -/
structure Call (C : Type) where
  fast : Moment C
  queued : Moment C
  pass : ℕ → Pass C
  passes : ℕ
  first : Launch.Attempt C
  second : Launch.Attempt C
  measured : Measurement
  placing : Moment C

/-- What the slots were built with and what a call is handed. -/
structure Router where
  catalog : Catalog
  budget : Budget
  /-- How long a request waits for room, in nanoseconds. -/
  wait : ℕ
  server : Launch.Server
  root : String

/-- How a call ends: a panic, or an answer; with what the slots hold then. -/
abbrev Outcome (C T : Type) := Option (Except Failure T) × Table C

section Calls
variable {C : Type} (self : Router) (machine : Launch.Machine) (entry : Entry) (call : Call C)

/-- The child already running for an entry, if there is a live one. -/
def running (moment : Moment C) (id : String) (slots : Table C) : Option C × Table C :=
  match liveChild moment.strong moment.check moment.now (moment.others slots id) with
  | (found, slot) => (found, Function.update (moment.others slots) id slot)

/-- The decision a pass takes, on the slots as others have left them. -/
def Router.weigh (pass : Pass C) (slots : Table C) : Option Decision :=
  self.budget.admit (held self.catalog pass.weighing.strong (pass.weighing.others slots)) (.of entry)
    (pass.device.map DeviceMemory.freeMib)

/-- The slots when a pass acts on its decision, before it does. -/
def meanwhile (pass : Pass C) (slots : Table C) : Table C := pass.acting.others (pass.weighing.others slots)

/-- What a pass does to the slots, and the entry that stopped it. -/
def act (pass : Pass C) (decision : Decision) (slots : Table C) : Option String × Table C :=
  match decision with
  | .Unload ids => unload pass.acting.strong ids (meanwhile pass slots)
  | _ => (none, meanwhile pass slots)

/-- The loop over the passes, `passes` of which are left before the deadline. -/
def Router.makeRoom : ℕ → ℕ → Table C → Outcome C Unit
  | passes, k, slots =>
    match self.weigh entry (call.pass k) slots with
    | none => (none, slots)
    | some decision =>
      match act (call.pass k) decision slots with
      | (blocker, slots) =>
        match MakeRoom.turn entry.id decision blocker self.wait (passes = 0), passes with
        | .Room, _ => (some (.ok ()), slots)
        | .Fails failure, _ => (some (.error failure), slots)
        | .Sleeps, passes + 1 => makeRoom passes (k + 1) slots
        -- No pass sleeps once the deadline is there.
        | .Sleeps, 0 => (some (.ok ()), slots)

/-- Starts a child for this entry, and measures it once it is ready. -/
def Router.start : Except Failure (Loaded C) :=
  (Launch.start machine self.server entry self.root call.first call.second).map fun child =>
    ⟨child, call.placing.now, call.measured⟩

/-- Starts a child for this entry, unloading what has to go first. -/
def Router.admit (slots : Table C) : Outcome C C :=
  match running call.queued entry.id slots with
  | (some child, slots) => (some (.ok child), slots)
  | (none, slots) => match Launch.modelFile machine entry self.root with
    | .error failure => (some (.error failure), slots)
    | .ok _ => match self.makeRoom entry call call.passes 0 slots with
      | (none, slots) => (none, slots)
      | (some (.error failure), slots) => (some (.error failure), slots)
      | (some (.ok ()), slots) => match self.start machine entry call with
        | .error failure => (some (.error failure), slots)
        | .ok loaded => (some (.ok loaded.child), Function.update (call.placing.others slots) entry.id (some loaded))

/-- The child serving this entry, started if there is room for it. -/
def Router.child (slots : Table C) : Outcome C C :=
  match running call.fast entry.id slots with
  | (some child, slots) => (some (.ok child), slots)
  | (none, slots) => self.admit machine entry call slots

end Calls
end Maestro.Slots
