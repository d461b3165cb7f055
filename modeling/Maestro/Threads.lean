import Maestro.Slots
import Maestro.Transition

/-!
# The threads of a router, step by step

Every connection, the loader, the reaper and a stop each run on a thread of
their own. A step of a thread is what it does between two looks at what the
threads share: under the lock of one slot, or outside every slot's lock. The
lock of a slot is taken in a step of its own, so that a thread can be found
holding it.

An `Arc` is counted: `strong` is the number of references to a child, and a
child whose last reference goes is killed and reaped.
-/
namespace Maestro.Threads
open Slots (Loaded Slot Table Liveness)
open Admission (Decision)

/-! ## Processes -/

/-- A process the router started: when, in the order of the starts, and for
    which entry. -/
structure Child where
  pid : ℕ
  id : String
deriving DecidableEq, Repr

/-- What has become of a process. One that has exited stays a zombie until it
    is waited for. -/
inductive Life
  | Unborn
  | Running
  | Exited (status : String)
  | Reaped (status : String)
deriving DecidableEq, Repr

def Life.liveness : Life → Liveness
  | .Unborn | .Running => .Running
  | .Exited status | .Reaped status => .Exited status

/-- Kills a process and waits for it; one that is gone is only waited for. -/
def Life.stopped : Life → Life
  | .Running => .Reaped "signal: 9 (SIGKILL)"
  | .Exited status | .Reaped status => .Reaped status
  | .Unborn => .Unborn

/-- The process has been reaped. -/
def Life.isReaped : Life → Bool
  | .Reaped _ => true
  | _ => false

/-! ## What the threads share -/

/-- The slots and the children, the admission lock, and the flag that ends the
    reaper. The last three fields are history that nothing reads. -/
structure Shared (Tid : Type) where
  slots : Table Child
  strong : Child → ℕ
  life : Child → Life
  /-- The number of processes started. -/
  next : ℕ
  clock : ℕ
  admission : Option Tid
  signalled : Bool
  /-- The child most recently put in a slot by an admission. -/
  admitted : Option Child
  /-- How many processes had been started at the latest call of stop that has
      emptied the slot. -/
  cleared : String → ℕ
  /-- The same for the latest call of stop that has returned. -/
  returned : ℕ

section Shared
variable {Tid : Type} (self : Shared Tid)

def Shared.check (child : Child) : Liveness := (self.life child).liveness

/-- One more reference. -/
def Shared.clone (child : Child) : Shared Tid :=
  { self with strong := Function.update self.strong child (self.strong child + 1) }

/-- Drops a reference; with the last one the child is stopped. -/
def Shared.release (child : Child) : Shared Tid :=
  { self with
    strong := Function.update self.strong child (self.strong child - 1)
    life := if self.strong child = 1 then Function.update self.life child (self.life child).stopped else self.life }

def Shared.put (id : String) (slot : Slot Child) : Shared Tid := { self with slots := Function.update self.slots id slot }

/-- Drops what a slot held. -/
def Shared.discard : Slot Child → Shared Tid
  | none => self
  | some held => self.release held.child

def Shared.unlock : Shared Tid := { self with admission := none }

/-- The child already running for an entry, if there is a live one. -/
def Shared.running (id : String) : Option Child × Shared Tid :=
  match Slots.liveChild self.strong self.check self.clock (self.slots id) with
  | (some child, slot) => (some child, (self.put id slot).clone child)
  | (none, slot) => (none, (self.put id slot).discard (self.slots id))

/-- The process that would be started next, for an entry. -/
def Shared.fresh (id : String) : Child := ⟨self.next, id⟩

/-- Starts a process for an entry. -/
def Shared.spawn (id : String) : Shared Tid :=
  { self with
    strong := Function.update self.strong (self.fresh id) 1
    life := Function.update self.life (self.fresh id) .Running
    next := self.next + 1 }

/-- The slot's handle and the one handed out come into existence together, and
    what the slot held is dropped. -/
def Shared.place (id : String) (loaded : Loaded Child) : Shared Tid :=
  { ((self.clone loaded.child).put id (some loaded)).discard (self.slots id) with admitted := some loaded.child }

/-- What one slot adds to a snapshot. -/
def Shared.seen (entry : Entry) : List Admission.Loaded :=
  ((self.slots entry.id).map fun held =>
    Admission.Loaded.of entry (Slots.busy self.strong held.child) held.lastUsed held.measured).toList

end Shared

/-! ## What the reaper asks -/

/-- How long a loaded on-demand model may go unused, in nanoseconds, before it
    is unloaded; none means never. -/
structure IdleWindow where
  duration : Option ℕ
  positive : duration ≠ some 0

/-- A window of exactly this duration, or off when it is zero. -/
def IdleWindow.new (window : ℕ) : IdleWindow :=
  if zero : window = 0 then ⟨none,by simp⟩ else ⟨some window,by simpa using zero⟩

/-- What the threads are configured with. -/
structure Config extends Slots.Router where
  idleWindow : IdleWindow

def Config.ids (self : Config) : List String := self.catalog.entries.map Entry.id

/-- Whether a use is old enough to count as idle. -/
def stale (now lastUsed duration : ℕ) : Bool := duration ≤ now - lastUsed

/-- The identifiers to unload, coldest first; the sort is stable. -/
def expired (window : Option ℕ) (loaded : List Admission.Loaded) (now : ℕ) : List String :=
  match window with
  | none => []
  | some window =>
    ((loaded.filter fun entry => entry.residency = .OnDemand && !entry.busy && stale now entry.lastUsed window).insertionSort
      fun a b => a.lastUsed ≤ b.lastUsed).map Admission.Loaded.id

/-- The two sweeps; the second has read the clock. -/
inductive Sweep
  | Exited
  | Idle (now : ℕ)
deriving DecidableEq, Repr

/-- What a sweep takes from a slot, and what it has to say about it. -/
def Sweep.take (config : Config) (strong : Child → ℕ) (check : Child → Liveness) (sweep : Sweep) (slot : Slot Child) :
    Option (Loaded Child × Option String) × Slot Child :=
  match sweep with
  | .Exited => match Slots.takeIfExited strong check slot with
    | (taken, slot) => (taken.map fun (loaded, status) => (loaded, some status), slot)
  | .Idle now =>
    let also := fun held : Loaded Child => config.idleWindow.duration.any fun duration => stale now held.lastUsed duration
    match Slots.takeIfIdle strong also slot with
    | (.Taken loaded, slot) => (some (loaded, none), slot)
    | (_, slot) => (none, slot)

/-- Asking for the status of a process that has exited reaps it. -/
def Sweep.waited (sweep : Sweep) (life : Child → Life) (child : Child) : Child → Life :=
  match sweep with
  | .Exited => Function.update life child (life child).stopped
  | .Idle _ => life

/-! ## What a thread is doing -/

/-- A call for the child that serves an entry, by a request that relays from it
    or by the loader. -/
structure Request where
  entry : Entry
  relays : Bool
deriving DecidableEq, Repr

/-- Where an admission is, under the admission lock. -/
inductive Phase
  | Rechecking
  | Resolving
  | Asking
  | Weighing (free : Option ℕ) (rest : List Entry) (seen : List Admission.Loaded)
  | Unloading (named rest : List String)
  | Ending (child : Child) (named rest : List String)
  | Turning (decision : Decision) (blocker : Option String)
  | Starting (second : Bool)
  | Loading (child : Child) (everConnected second : Bool)
  | Abandoning (child : Child) (failure : Failure) (again : Bool)
  | Measuring (child : Child)
  | Placing (loaded : Loaded Child)
  | Placed (child : Child)

inductive Job
  | Idle
  -- A request.
  | Running (request : Request)
  | Queued (request : Request)
  | Admitting (request : Request) (phase : Phase)
  | Failed (request : Request) (failure : Failure)
  | Serving (request : Request) (child : Child)
  | Touching (request : Request) (child : Child)
  | Dropping (request : Request) (child : Child)
  -- The reaper.
  | Sweeping (sweep : Sweep) (rest : List String) (named : List (String × Option String))
  | Swept (sweep : Sweep) (child : Child) (said : String × Option String) (rest : List String)
      (named : List (String × Option String))
  | Expiring (now : ℕ) (rest : List Entry) (seen : List Admission.Loaded)
  -- A stop, with how many processes had been started when it was called.
  | Clearing (called : ℕ) (rest : List String) (taken : List Child)
  | Stopping (called : ℕ) (rest : List Child)
  | Signalled (called : ℕ)
  -- A view of what is loaded, and of what it was measured to hold.
  | Listing (rest : List Entry) (loaded : List String)
  | Holding (loaded : List String) (rest : List Entry) (held : List (String × Option ℕ))

/-- What the world answers a step with. -/
inductive Input
  | Go
  | Ask (request : Request)
  | Reap
  | Stop (order : List String)
  | List
  | Catalogue
  | Resolve (missing : Option Failure)
  | Device (reading : Option DeviceMemory)
  | Clock (expired : Bool)
  | Spawn (failure : Option Failure)
  | Poll (health : Option ℕ) (expired : Bool)
  | Measure (measured : Measurement)
  | Hangup

/-- The slot whose lock a thread needs for its next step. -/
def Job.needs : Job → Option String
  | .Running request => some request.entry.id
  | .Admitting request .Rechecking => some request.entry.id
  | .Admitting _ (.Weighing _ (entry :: _) _) => some entry.id
  | .Admitting _ (.Unloading _ (id :: _)) => some id
  | .Admitting request (.Placing _) => some request.entry.id
  | .Touching request _ => some request.entry.id
  | .Sweeping _ (id :: _) _ => some id
  | .Expiring _ (entry :: _) _ => some entry.id
  | .Clearing _ (id :: _) _ => some id
  | .Listing (entry :: _) _ => some entry.id
  | .Holding _ (entry :: _) _ => some entry.id
  | _ => none

/-! ## One step of a thread -/

section Steps
variable {Tid : Type} (config : Config) (input : Input) (self : Shared Tid)

/-- A step of an admission, which holds the admission lock. -/
def Phase.step (request : Request) : Phase → Option (Shared Tid × Job)
  | .Rechecking => match self.running request.entry.id with
    | (some child, shared) => some (shared, .Admitting request (.Placed child))
    | (none, shared) => some (shared, .Admitting request .Resolving)
  | .Resolving => match input with
    | .Resolve none => some (self, .Admitting request .Asking)
    | .Resolve (some failure) => some (self.unlock, .Failed request failure)
    | _ => none
  | .Asking => match input with
    | .Device reading =>
      some (self, .Admitting request (.Weighing (reading.map DeviceMemory.freeMib) config.catalog.entries []))
    | _ => none
  | .Weighing free (entry :: rest) seen =>
    some (self, .Admitting request (.Weighing free rest (seen ++ self.seen entry)))
  | .Weighing free [] seen => match config.budget.admit seen (.of request.entry) free with
    -- A panic drops the guard of the admission lock on its way out.
    | none => some (self.unlock, .Idle)
    | some (.Unload ids) => some (self, .Admitting request (.Unloading ids ids))
    | some decision => some (self, .Admitting request (.Turning decision none))
  | .Unloading named (id :: rest) => match Slots.takeIfIdle self.strong (fun _ => true) (self.slots id) with
    | (.Taken loaded, slot) => some (self.put id slot, .Admitting request (.Ending loaded.child named rest))
    | (.Busy, _) => some (self, .Admitting request (.Turning (.Unload named) (some id)))
    | (.Empty, _) => some (self, .Admitting request (.Unloading named rest))
  | .Unloading named [] => some (self, .Admitting request (.Turning (.Unload named) none))
  | .Ending child named rest => some (self.release child, .Admitting request (.Unloading named rest))
  | .Turning decision blocker => match input with
    | .Clock expired => match MakeRoom.turn request.entry.id decision blocker config.wait expired with
      | .Room => some (self, .Admitting request (.Starting false))
      | .Fails failure => some (self.unlock, .Failed request failure)
      | .Sleeps => some (self, .Admitting request .Asking)
    | _ => none
  | .Starting second => match input with
    | .Spawn none =>
      some (self.spawn request.entry.id, .Admitting request (.Loading (self.fresh request.entry.id) false second))
    | .Spawn (some failure) => some (self.unlock, .Failed request failure)
    | _ => none
  | .Loading child everConnected second => match input with
    | .Poll health expired => match self.check child with
      -- Retried once, and only when nothing ever answered: the lost race for a port.
      | .Exited status => some (self, .Admitting request (.Abandoning child
          (.Unavailable s!"entry '{child.id}': the server exited while loading ({status})") (!everConnected && !second)))
      | .Running =>
        if health = some 200 then some (self, .Admitting request (.Measuring child))
        else if expired then some (self, .Admitting request (.Abandoning child
          (.NotReady (s!"entry '{child.id}': not ready within its startup budget of " ++
            s!"{request.entry.startupTimeoutSeconds} seconds")) false))
        else some (self, .Admitting request (.Loading child (everConnected || health.isSome) second))
    | _ => none
  | .Abandoning child failure again =>
    if again then some (self.release child, .Admitting request (.Starting true))
    else some ((self.release child).unlock, .Failed request failure)
  | .Measuring child => match input with
    | .Measure measured => some (self, .Admitting request (.Placing ⟨child, self.clock, measured⟩))
    | _ => none
  | .Placing loaded => some (self.place request.entry.id loaded, .Admitting request (.Placed loaded.child))
  | .Placed child => some (self.unlock, .Serving request child)

/-- A step of an idle thread: it begins something. -/
def begin : Option (Shared Tid × Job) :=
  match input with
  | .Ask request => if request.entry ∈ config.catalog.entries then some (self, .Running request) else none
  | .Reap => if config.idleWindow.duration.isSome ∧ self.signalled = false then some (self, .Sweeping .Exited config.ids []) else none
  | .Stop order => if order.Perm config.ids then some (self, .Clearing self.next order []) else none
  | .List => some (self, .Listing config.catalog.entries [])
  | _ => none

/-- A step of the reaper. -/
def sweep (sweep : Sweep) (named : List (String × Option String)) : List String → Option (Shared Tid × Job)
  | id :: rest => match sweep.take config self.strong self.check (self.slots id) with
    | (some (loaded, said), slot) =>
      some ({ self.put id slot with life := sweep.waited self.life loaded.child },
        .Swept sweep loaded.child (id, said) rest named)
    | (none, _) => some (self, .Sweeping sweep rest named)
  | [] => match sweep with
    | .Exited => some (self, .Expiring self.clock config.catalog.entries [])
    | .Idle _ => some (self, .Idle)

/-- A step of a stop that is emptying the slots. -/
def clear (called : ℕ) (taken : List Child) : List String → Option (Shared Tid × Job)
  | id :: rest =>
    some ({ self.put id none with cleared := Function.update self.cleared id (max (self.cleared id) called) },
      .Clearing called rest (taken ++ ((self.slots id).map Loaded.child).toList))
  | [] => some (self, .Stopping called taken)

/-- One step of the thread `t`. -/
def Job.step (t : Tid) : Job → Option (Shared Tid × Job)
  | .Idle => begin config input self
  | .Running request => match self.running request.entry.id with
    | (some child, shared) => some (shared, .Serving request child)
    | (none, shared) => some (shared, .Queued request)
  | .Queued request =>
    if self.admission.isNone then some ({ self with admission := some t }, .Admitting request .Rechecking) else none
  | .Admitting request phase => phase.step config input self request
  | .Failed _ _ => some (self, .Idle)
  | .Serving request child => match input with
    | .Go => some (self, if request.relays then .Touching request child else .Dropping request child)
    | .Hangup => some (self, .Dropping request child)
    | _ => none
  | .Touching request child =>
    some (self.put request.entry.id (Slots.touched self.clock (self.slots request.entry.id)), .Dropping request child)
  | .Dropping _ child => some (self.release child, .Idle)
  | .Sweeping kind rest named => sweep config self kind named rest
  | .Swept kind child said rest named => some (self.release child, .Sweeping kind rest (named ++ [said]))
  | .Expiring now (entry :: rest) seen => some (self, .Expiring now rest (seen ++ self.seen entry))
  | .Expiring now [] seen => some (self, .Sweeping (.Idle now) (expired config.idleWindow.duration seen now) [])
  | .Clearing called rest taken => clear self called taken rest
  | .Stopping called (child :: rest) => some (self.release child, .Stopping called rest)
  | .Stopping called [] => some ({ self with signalled := true }, .Signalled called)
  | .Signalled called => some ({ self with returned := max self.returned called }, .Idle)
  | .Listing (entry :: rest) loaded =>
    some (self, .Listing rest (loaded ++ ((self.slots entry.id).map fun _ => entry.id).toList))
  | .Listing [] loaded => match input with
    | .Go => some (self, .Idle)
    | .Catalogue => some (self, .Holding loaded config.catalog.entries [])
    | _ => none
  | .Holding loaded (entry :: rest) held =>
    some (self, .Holding loaded rest
      (held ++ ((self.slots entry.id).map fun held => (entry.id, held.measured.largestMib)).toList))
  | .Holding _ [] _ => some (self, .Idle)

end Steps

/-! ## The system -/

/-- What the threads share, what each is doing, and who holds each slot's
    lock. -/
structure State (Tid : Type) where
  shared : Shared Tid
  jobs : Tid → Job
  guards : String → Option Tid

/-- The router as it starts: nothing loaded, nobody doing anything. -/
def State.start (Tid : Type) : State Tid where
  shared := ⟨fun _ => none,fun _ => 0,fun _ => .Unborn,0,0,none,false,none,fun _ => 0,0⟩
  jobs := fun _ => .Idle
  guards := fun _ => none

/-- Time passes, a process exits on its own, or a thread takes a step. -/
inductive Event (Tid : Type)
  | Tick
  | Dies (child : Child) (status : String)
  | Act (t : Tid) (input : Input)

section System
variable {Tid : Type} [DecidableEq Tid] (config : Config)

/-- The step of a thread that has the lock it needs. -/
def State.advance (self : State Tid) (t : Tid) (input : Input) : Option (State Tid) :=
  ((self.jobs t).step config input self.shared t).map fun (shared, job) =>
    { self with shared := shared, jobs := Function.update self.jobs t job }

/-- A thread that needs a slot's lock takes it in one step, and does what it
    does under it, up to its release, in another. -/
def State.act (self : State Tid) (t : Tid) (input : Input) : Option (State Tid) :=
  match (self.jobs t).needs with
  | none => self.advance config t input
  | some id => match self.guards id with
    | none => some { self with guards := Function.update self.guards id (some t) }
    | some owner =>
      if owner = t then
        (self.advance config t input).map fun after => { after with guards := Function.update after.guards id none }
      else none

def State.step (self : State Tid) : Event Tid → Option (State Tid)
  | .Tick => some { self with shared := { self.shared with clock := self.shared.clock + 1 } }
  | .Dies child status =>
    if self.shared.life child = .Running then
      some { self with shared := { self.shared with life := Function.update self.shared.life child (.Exited status) } }
    else none
  | .Act t input => self.act config t input

/-- The router's threads, in any order of their steps. -/
def router (Tid : Type) [DecidableEq Tid] : Transition.System (State Tid) (Event Tid) :=
  ⟨.start Tid,State.step config⟩

end System
end Maestro.Threads
