import Maestro.Launch
import Maestro.Text
import Maestro.Threads
import Maestro.Transition

/-!
# Who answered while a child was starting

A start goes from one look at the machine to the next. Between any two of them
a child may exit or bind the port it was given, and somebody else may take the
port or give it up again: it is free from the moment it was chosen until one of
them binds it.
-/
namespace Maestro.Starting
open Launch (Attempt Loading)
open Threads (Life)
open Transition (System Reaches)

/-- A process of this start. -/
structure Process where
  life : Life
  /-- It ended of itself. -/
  exited : Bool
  /-- A connection to it succeeded. -/
  reached : Bool

def Process.new : Process := ⟨.Running,false,false⟩

def Process.exits (self : Process) (status : String) : Process := { self with life := .Exited status, exited := true }

def Process.stopped (self : Process) : Process := { self with life := self.life.stopped }

/-- Who listens at a port: a process of this start, counted from the first, or
    any other process. -/
inductive Party
  | Child (number : ℕ)
  | Stranger
deriving DecidableEq

/-- A child handed out, who answered the probe before it was, and whether that
    process was alive when it did. -/
structure Answered where
  child : ℕ
  party : Party
  living : Bool

inductive Phase
  | Choosing
  | Spawning
  | Checking
  | Connecting
  | Waiting (party : Party)
  | Reading (party : Party) (living : Bool) (line : List Char)
  | Judging
  | Returned (result : Except Failure Answered)

structure State where
  phase : Phase
  port : Except String ℕ
  /-- The process of the attempt under way. -/
  child : Option Process
  everConnected : Bool
  /-- Who has bound the port of this attempt. -/
  listener : Option Party
  /-- What the first attempt came to, once there is a second. -/
  first : Option (Attempt Answered)
  /-- The processes of attempts that are over. -/
  before : List Process

/-- What happens to the processes and the port without the start's doing. -/
inductive Outside
  | Takes
  | Leaves
  | Binds
  | Exits (status : String)

/-- What the machine answers the start when it looks. -/
inductive Look
  | Chosen (port : Except String ℕ)
  | Spawned (process : Except String Unit)
  | Checked (readable : Bool)
  | Connected (accepted : Bool)
  | Answers (line : List Char)
  | NoAnswer
  | Read
  | Judged (spent : Bool)

inductive Event
  | Outside (outside : Outside)
  | Look (look : Look)

/-- The status in the first line of a reply: the second word, and none of the
    rest. -/
def health (line : List Char) : Option ℕ := (Text.words line)[1]?.bind (Text.parseUnsigned 16)

namespace State
variable (self : State)

/-- The number of the attempt's own process. -/
def number : ℕ := self.before.length

/-- Every process the start has spawned, in that order. -/
def spawned : List Process := self.before ++ self.child.toList

/-- What the attempt's own process leaves of a listener when it ends. -/
def listenerWithout : Option Party := if self.listener = some (.Child self.number) then none else self.listener

/-- A value that represents a child is dropped: the child is stopped. -/
def dropped : State := { self with child := self.child.map Process.stopped, listener := self.listenerWithout }

def outside : Outside → Option State
  | .Takes => if self.listener = none then some { self with listener := some .Stranger } else none
  | .Leaves => if self.listener = some .Stranger then some { self with listener := none } else none
  | .Binds => self.child.bind fun child =>
    if child.life = .Running ∧ self.listener = none then some { self with listener := some (.Child self.number) } else none
  | .Exits status => self.child.bind fun child =>
    if child.life = .Running then
      some { self with child := some (child.exits status), listener := self.listenerWithout }
    else none

/-- The exit that a check of the child finds, if its status can be read. -/
def found (readable : Bool) : Option String :=
  if readable then
    self.child.bind fun child => match child.life with
      | .Exited status => some status
      | _ => none
  else none

/-- A connection to whoever listens. -/
def connected (party : Party) : State :=
  { self with
    phase := .Waiting party
    child := if party = .Child self.number then self.child.map fun child => { child with reached := true } else self.child }

/-- The process that listens is alive: one of this start only while it runs. -/
def living : Party → Bool
  | .Child number => number = self.number ∧ self.child.any fun child => child.life = .Running
  | .Stranger => true

end State

section
variable (machine : Launch.Machine) (server : Launch.Server) (entry : Entry) (root : String)

/-- A spawn, before anything is known of what becomes of the process. -/
def spawn (port : Except String ℕ) (process : Except String Unit) : Except Failure Unit :=
  let answer : Attempt Answered := ⟨port,process.map fun _ => .TimedOut⟩
  (Launch.spawn machine server entry root answer).map fun _ => ()

/-- The attempt is over. What it came to is handed to the start, which tries
    again where the first child was lost without a connection to it. -/
def State.ends (self : State) (fate : Loading Answered) : State :=
  let answer : Attempt Answered := ⟨self.port,.ok fate⟩
  match Launch.attempt machine server entry root answer with
  | .ok answered => { self with phase := .Returned (.ok answered) }
  | .error (failure, lostTheRace) =>
    let left := self.dropped
    if lostTheRace && self.first.isNone then
      { left with phase := .Choosing, child := none, first := some answer, before := left.spawned }
    else { left with phase := .Returned (.error failure) }

def State.look (self : State) : Phase → Look → Option State
  | .Choosing, .Chosen port => some { self with phase := .Spawning, port, listener := none }
  | .Spawning, .Spawned process => match spawn machine server entry root self.port process with
    | .error failure => some { self with phase := .Returned (.error failure) }
    | .ok _ => some { self with phase := .Checking, child := some .new, everConnected := false }
  | .Checking, .Checked readable => match self.found readable with
    | some status => some (self.ends machine server entry root (.Exited status self.everConnected))
    | none => some { self with phase := .Connecting }
  | .Connecting, .Connected true => self.listener.map self.connected
  | .Connecting, .Connected false => some { self with phase := .Judging }
  | .Waiting party, .Answers line =>
    if self.living party then some { self with phase := .Reading party (self.living party) line } else none
  | .Waiting _, .NoAnswer => some { self with phase := .Judging }
  | .Reading party living line, .Read => match health line with
    | some 200 => some (self.ends machine server entry root (.Ready ⟨self.number,party,living⟩))
    | some _ => some { self with phase := .Judging, everConnected := true }
    | none => some { self with phase := .Judging }
  | .Judging, .Judged true => some (self.ends machine server entry root .TimedOut)
  | .Judging, .Judged false => some { self with phase := .Checking }
  | _, _ => none

/-- A start of this entry, from its call on. -/
def starting : System State Event where
  -- The port is read only once one has been chosen.
  initial := ⟨.Choosing,.error "",none,false,none,none,[]⟩
  step s
    | .Outside outside => s.outside outside
    | .Look look => s.look machine server entry root s.phase look

end

/-! ## What a step does -/

section
variable {machine : Launch.Machine} {server : Launch.Server} {entry : Entry} {root : String} {s s' : State}

theorem attempt_ok {port : Except String ℕ} {fate : Loading Answered} {answered : Answered}
    (ends : Launch.attempt machine server entry root ⟨port,.ok fate⟩ = .ok answered) : fate = .Ready answered := by
  rw [Launch.attempt,Launch.spawn] at ends
  cases found : Launch.modelFile machine entry root <;> cases port <;>
    cases binary : Launch.binaryFor machine server entry <;> cases fate <;> rw [found,binary] at ends <;> cases ends
  rfl

theorem attempt_lost {port : Except String ℕ} {fate : Loading Answered} {failure : Failure}
    (ends : Launch.attempt machine server entry root ⟨port,.ok fate⟩ = .error (failure,true)) :
    ∃ status, fate = .Exited status false := by
  rw [Launch.attempt,Launch.spawn] at ends
  cases found : Launch.modelFile machine entry root <;> cases port <;>
    cases binary : Launch.binaryFor machine server entry <;> rw [found,binary] at ends
  case ok.ok.ok =>
    cases fate with
    | Exited status everConnected =>
      cases everConnected
      · exact ⟨status,rfl⟩
      · cases ends
    | _ => cases ends
  all_goals cases ends

/-- The port the attempt has chosen takes a process as far as its fate. -/
def Going (machine : Launch.Machine) (server : Launch.Server) (entry : Entry) (root : String) (s : State) : Prop :=
  ∀ fate : Loading Answered, Launch.spawn machine server entry root ⟨s.port,.ok fate⟩ = .ok fate

theorem spawn_going {process : Except String Unit} {u : Unit} (spawned : spawn machine server entry root s.port process = .ok u) :
    Going machine server entry root s := by
  intro fate
  rw [spawn,Launch.spawn] at spawned
  rw [Launch.spawn]
  cases found : Launch.modelFile machine entry root <;> cases port : s.port <;>
    cases binary : Launch.binaryFor machine server entry <;> cases process <;> rw [found,port,binary] at spawned <;> cases spawned
  rfl

/-- An attempt that is over ended in a ready child, in a child that was lost
    before there was a status from it, or in an error that is final. -/
theorem ends_cases (s : State) (fate : Loading Answered) :
    (∃ answered, fate = .Ready answered ∧
      Launch.attempt machine server entry root ⟨s.port,.ok fate⟩ = .ok answered ∧
      s.ends machine server entry root fate = { s with phase := .Returned (.ok answered) }) ∨
    (∃ status failure, fate = .Exited status false ∧ s.first = none ∧
      Launch.attempt machine server entry root ⟨s.port,.ok fate⟩ = .error (failure,true) ∧
      s.ends machine server entry root fate =
        { s.dropped with phase := .Choosing, child := none, first := some ⟨s.port,.ok fate⟩, before := s.dropped.spawned }) ∨
    (∃ failure lost, Launch.attempt machine server entry root ⟨s.port,.ok fate⟩ = .error (failure,lost) ∧
      (lost = true → s.first ≠ none) ∧
      s.ends machine server entry root fate = { s.dropped with phase := .Returned (.error failure) }) := by
  rw [State.ends]
  cases came : Launch.attempt machine server entry root ⟨s.port,.ok fate⟩ with
  | ok answered => exact .inl ⟨answered,attempt_ok came,rfl,rfl⟩
  | error refused =>
    obtain ⟨failure,lost⟩ := refused
    cases lost with
    | false => exact .inr (.inr ⟨failure,false,rfl,nofun,rfl⟩)
    | true =>
      obtain ⟨status,exited⟩ := attempt_lost came
      cases again : s.first with
      | none => exact .inr (.inl ⟨status,failure,exited,rfl,rfl,rfl⟩)
      | some answer => exact .inr (.inr ⟨failure,true,rfl,nofun,rfl⟩)

/-- What happens outside leaves the start where it is, and ends its child at
    most. -/
structure Beside (s s' : State) : Prop where
  phase : s'.phase = s.phase
  port : s'.port = s.port
  everConnected : s'.everConnected = s.everConnected
  first : s'.first = s.first
  before : s'.before = s.before
  child : s'.child = s.child ∨
    ∃ child status, s.child = some child ∧ child.life = .Running ∧ s'.child = some (child.exits status)

theorem outside_beside {outside : Outside} (steps : s.outside outside = some s') : Beside s s' := by
  cases outside with
  | Takes | Leaves =>
    rw [State.outside] at steps
    split_ifs at steps
    cases steps
    exact ⟨rfl,rfl,rfl,rfl,rfl,.inl rfl⟩
  | Binds =>
    obtain ⟨child,_,bound⟩ := Option.bind_eq_some_iff.mp steps
    split_ifs at bound
    cases bound
    exact ⟨rfl,rfl,rfl,rfl,rfl,.inl rfl⟩
  | Exits status =>
    obtain ⟨child,held,exits⟩ := Option.bind_eq_some_iff.mp steps
    split_ifs at exits with running
    cases exits
    exact ⟨rfl,rfl,rfl,rfl,rfl,.inr ⟨child,status,held,running,rfl⟩⟩

/-- The attempt has spawned its process and is not over. -/
def Phase.running : Phase → Bool
  | .Choosing | .Spawning | .Returned _ => false
  | _ => true

/-- The phases in which a look finds nothing to report. -/
def Phase.between : Phase → Bool
  | .Checking | .Connecting | .Judging => true
  | _ => false

/-- What one look comes to. -/
inductive Looks (machine : Launch.Machine) (server : Launch.Server) (entry : Entry) (root : String) (s : State) : Look → State → Prop
  | chosen {port : Except String ℕ} (phase : s.phase = .Choosing) :
    Looks machine server entry root s (.Chosen port) { s with phase := .Spawning, port, listener := none }
  | unspawned {process : Except String Unit} {failure : Failure} (phase : s.phase = .Spawning)
    (refused : spawn machine server entry root s.port process = .error failure) :
    Looks machine server entry root s (.Spawned process) { s with phase := .Returned (.error failure) }
  | spawned {process : Except String Unit} (phase : s.phase = .Spawning)
    (started : spawn machine server entry root s.port process = .ok ()) :
    Looks machine server entry root s (.Spawned process) { s with phase := .Checking, child := some .new, everConnected := false }
  | exited {readable : Bool} {status : String} (phase : s.phase = .Checking) (found : s.found readable = some status) :
    Looks machine server entry root s (.Checked readable) (s.ends machine server entry root (.Exited status s.everConnected))
  | goes_on {look : Look} {phase : Phase} {everConnected : Bool} (running : s.phase.running) (between : phase.between) :
    Looks machine server entry root s look { s with phase, everConnected }
  | connected {party : Party} (phase : s.phase = .Connecting) (listens : s.listener = some party) :
    Looks machine server entry root s (.Connected true) (s.connected party)
  | answered {party : Party} {line : List Char} (phase : s.phase = .Waiting party) (living : s.living party = true) :
    Looks machine server entry root s (.Answers line) { s with phase := .Reading party true line }
  | ready {party : Party} {living : Bool} {line : List Char} (phase : s.phase = .Reading party living line)
    (well : health line = some 200) :
    Looks machine server entry root s .Read (s.ends machine server entry root (.Ready ⟨s.number,party,living⟩))
  | spent (phase : s.phase = .Judging) :
    Looks machine server entry root s (.Judged true) (s.ends machine server entry root .TimedOut)

theorem looks {look : Look} (steps : s.look machine server entry root s.phase look = some s') :
    Looks machine server entry root s look s' := by
  cases phase : s.phase with
  | Choosing =>
    rw [phase] at steps
    cases look <;> cases steps
    exact .chosen phase
  | Spawning =>
    rw [phase] at steps
    cases look with
    | Spawned process =>
      cases came : spawn machine server entry root s.port process <;> rw [State.look,came] at steps <;> cases steps
      · exact .unspawned phase came
      · exact .spawned phase came
    | _ => cases steps
  | Checking =>
    rw [phase] at steps
    cases look with
    | Checked readable =>
      cases found : s.found readable <;> rw [State.look,found] at steps <;> cases steps
      · exact .goes_on (by rw [phase]; rfl) rfl
      · exact .exited phase found
    | _ => cases steps
  | Connecting =>
    rw [phase] at steps
    cases look with
    | Connected accepted =>
      cases accepted with
      | true =>
        obtain ⟨party,listens,rfl⟩ := Option.map_eq_some_iff.mp steps
        exact .connected phase listens
      | false =>
        cases steps
        exact .goes_on (by rw [phase]; rfl) rfl
    | _ => cases steps
  | Waiting party =>
    rw [phase] at steps
    cases look with
    | Answers line =>
      rw [State.look] at steps
      split_ifs at steps with living
      rw [living] at steps
      cases steps
      exact .answered phase living
    | NoAnswer =>
      cases steps
      exact .goes_on (by rw [phase]; rfl) rfl
    | _ => cases steps
  | Reading party living line =>
    rw [phase] at steps
    cases look with
    | Read =>
      rw [State.look] at steps
      split at steps
      next well =>
        cases steps
        exact .ready phase well
      all_goals
        cases steps
        exact .goes_on (by rw [phase]; rfl) rfl
    | _ => cases steps
  | Judging =>
    rw [phase] at steps
    cases look with
    | Judged spent =>
      cases spent <;> cases steps
      · exact .goes_on (by rw [phase]; rfl) rfl
      · exact .spent phase
    | _ => cases steps
  | Returned result =>
    rw [phase] at steps
    cases look <;> cases steps

/-! ## What every step keeps -/

/-- A process that this start knows of was started, and one whose end nothing
    has read yet ended of itself. -/
def Process.Started (self : Process) : Prop := self.life ≠ .Unborn ∧ ∀ status, self.life = .Exited status → self.exited = true

/-- What holds of a start in every run. -/
structure Sound (machine : Launch.Machine) (server : Launch.Server) (entry : Entry) (root : String) (s : State) : Prop where
  started : ∀ child, s.child = some child → child.Started
  idle : s.phase = .Choosing ∨ s.phase = .Spawning → s.child = none
  running : s.phase.running → s.child.isSome ∧ Going machine server entry root s
  reading : ∀ number living line, s.phase = .Reading (.Child number) living line → number = s.number ∧ living = true
  ended : ∀ process ∈ s.before, process.life.isReaped = true
  once : s.before.length ≤ if s.first.isSome then 1 else 0
  failed : ∀ failure, s.phase = .Returned (.error failure) → ∀ process ∈ s.spawned, process.life.isReaped = true

theorem Process.Started.stopped {process : Process} (started : process.Started) : process.stopped.life.isReaped = true := by
  obtain ⟨born,_⟩ := started
  rw [Process.stopped]
  cases life : process.life with
  | Unborn => exact absurd life born
  | Running | Exited | Reaped => rfl

theorem Process.Started.exits {process : Process} (status : String) : (process.exits status).Started := ⟨nofun,fun _ _ => rfl⟩

theorem Process.Started.stays {process : Process} (started : process.Started) : process.stopped.Started := by
  have reaped := started.stopped
  refine ⟨fun unborn => ?_,fun status exited => ?_⟩
  · rw [unborn] at reaped
    cases reaped
  · rw [exited] at reaped
    cases reaped

/-- A process that has been reaped neither runs nor ends once more. -/
theorem Beside.reaped (beside : Beside s s') (all : ∀ process ∈ s.spawned, process.life.isReaped = true) :
    ∀ process ∈ s'.spawned, process.life.isReaped = true := by
  intro process member
  rw [State.spawned,beside.before] at member
  rcases beside.child with same | ⟨child,_,held,running,_⟩
  · rw [same] at member
    exact all process member
  · have reaped := all child (by rw [State.spawned,held]; simp)
    rw [running] at reaped
    cases reaped

theorem Sound.beside (sound : Sound machine server entry root s) (beside : Beside s s') : Sound machine server entry root s' where
  started child held := by
    rcases beside.child with same | ⟨process,status,_,_,exits⟩
    · exact sound.started child (same ▸ held)
    · rw [held] at exits
      cases exits
      exact Process.Started.exits status
  idle at_rest := by
    rw [beside.phase] at at_rest
    rcases beside.child with same | ⟨_,_,held,_⟩
    · rw [same,sound.idle at_rest]
    · rw [sound.idle at_rest] at held
      cases held
  running going := by
    rw [beside.phase] at going
    obtain ⟨held,goes⟩ := sound.running going
    refine ⟨?_,fun fate => by rw [beside.port,goes]⟩
    rcases beside.child with same | ⟨_,_,_,_,exits⟩
    · rwa [same]
    · rw [exits]
      rfl
  reading number living line at_reading := by
    rw [beside.phase] at at_reading
    rw [State.number,beside.before]
    exact sound.reading number living line at_reading
  ended := by
    rw [beside.before]
    exact sound.ended
  once := by
    rw [beside.before,beside.first]
    exact sound.once
  failed failure returned := by
    rw [beside.phase] at returned
    exact beside.reaped (sound.failed failure returned)

/-- Once its value is dropped, every process of the start has been reaped. -/
theorem Sound.dropped (sound : Sound machine server entry root s) : ∀ process ∈ s.dropped.spawned, process.life.isReaped = true := by
  intro process member
  rcases List.mem_append.mp member with earlier | own
  · exact sound.ended process earlier
  · obtain ⟨child,held,rfl⟩ := Option.map_eq_some_iff.mp (Option.mem_toList.mp own)
    exact (sound.started child held).stopped

theorem Sound.ends (sound : Sound machine server entry root s) (fate : Loading Answered) :
    Sound machine server entry root (s.ends machine server entry root fate) := by
  have stopped : ∀ child, s.dropped.child = some child → child.Started := by
    intro child held
    obtain ⟨process,was,rfl⟩ := Option.map_eq_some_iff.mp held
    exact (sound.started process was).stays
  rcases ends_cases s fate with ⟨_,_,_,is⟩ | ⟨_,_,_,first,_,is⟩ | ⟨_,_,_,_,is⟩
  · rw [is]
    exact ⟨sound.started,nofun,nofun,nofun,sound.ended,sound.once,nofun⟩
  · have none_over : s.before.length = 0 := by simpa [first] using sound.once
    have one : s.dropped.spawned.length ≤ 1 := by
      have held := Option.length_toList_le (o := s.dropped.child)
      rw [State.spawned,List.length_append,show s.dropped.before = s.before from rfl,none_over]
      omega
    rw [is]
    exact ⟨nofun,fun _ => rfl,nofun,nofun,sound.dropped,one,nofun⟩
  · rw [is]
    exact ⟨stopped,nofun,nofun,nofun,sound.ended,sound.once,fun _ _ => sound.dropped⟩

theorem Phase.ne_returned {phase : Phase} (between : phase.between) (result : Except Failure Answered) : phase ≠ .Returned result := by
  rintro rfl
  cases between

theorem Phase.between_running {phase : Phase} (between : phase.between) : phase.running := by
  cases phase with
  | Checking | Connecting | Judging => rfl
  | _ => cases between

/-- A look that leads to another one leaves the attempts as they are. -/
theorem Sound.moves (sound : Sound machine server entry root s) {phase : Phase} (before : s.phase.running) (after : phase.running)
    (everConnected : Bool)
    (reading : ∀ number living line, phase = .Reading (.Child number) living line → number = s.number ∧ living = true) :
    Sound machine server entry root { s with phase, everConnected } where
  started := sound.started
  idle := by rintro (rfl | rfl) <;> cases after
  running _ := sound.running before
  reading := reading
  ended := sound.ended
  once := sound.once
  failed _ returned := by
    cases returned
    cases after

theorem Process.Started.reaches {process : Process} (started : process.Started) (reached : Bool) :
    ({ process with reached } : Process).Started := started

theorem Sound.connected (sound : Sound machine server entry root s) (phase : s.phase = .Connecting) (party : Party) :
    Sound machine server entry root (s.connected party) where
  started child held := by
    rw [State.connected] at held
    simp only at held
    split_ifs at held
    · obtain ⟨process,was,rfl⟩ := Option.map_eq_some_iff.mp held
      exact (sound.started process was).reaches true
    · exact sound.started child held
  idle := nofun
  running _ := by
    obtain ⟨held,goes⟩ := sound.running (by rw [phase]; rfl)
    refine ⟨?_,goes⟩
    rw [State.connected]
    simp only
    split_ifs
    · rwa [Option.isSome_map]
    · exact held
  reading := nofun
  ended := sound.ended
  once := sound.once
  failed := nofun

theorem Sound.look {look : Look} (sound : Sound machine server entry root s) (came : Looks machine server entry root s look s') :
    Sound machine server entry root s' := by
  cases came with
  | chosen phase => exact ⟨sound.started,fun _ => sound.idle (.inl phase),nofun,nofun,sound.ended,sound.once,nofun⟩
  | unspawned phase refused =>
    have none_held := sound.idle (.inr phase)
    refine ⟨sound.started,nofun,nofun,nofun,sound.ended,sound.once,?_⟩
    intro failure _ process member
    rw [State.spawned,none_held] at member
    exact sound.ended process (by simpa using member)
  | spawned phase started =>
    have new : Process.new.Started := ⟨nofun,nofun⟩
    exact ⟨fun child held => by cases held; exact new,nofun,fun _ => ⟨rfl,spawn_going started⟩,nofun,sound.ended,sound.once,nofun⟩
  | exited | ready | spent => exact sound.ends _
  | goes_on running between => exact sound.moves running (Phase.between_running between) _ fun _ _ _ is => by rw [is] at between; cases between
  | connected phase listens => exact sound.connected phase _
  | answered phase living =>
    refine sound.moves (by rw [phase]; rfl) rfl _ fun number _ _ is => ?_
    cases is
    exact ⟨(of_decide_eq_true living).1,rfl⟩

theorem sound_of_reaches {allowed : State → Event → Prop} (reached : Reaches (starting machine server entry root) allowed s) :
    Sound machine server entry root s := by
  refine reached.invariant ⟨nofun,fun _ => rfl,nofun,nofun,nofun,le_rfl,nofun⟩ fun before event after _ sound _ steps => ?_
  cases event with
  | Outside outside => exact sound.beside (outside_beside steps)
  | Look look => exact sound.look (looks steps)

end

/-! ## The child that is handed out -/

/-- A child handed out is the one that answered, and it was alive when it did;
    an error leaves no process behind; and there is a second process only where
    the first one ended of itself without a connection to it. -/
structure Honest (s : State) : Prop where
  answered : ∀ answered, s.phase = .Returned (.ok answered) →
    answered.party = .Child answered.child ∧ answered.living = true ∧ s.spawned.length = answered.child + 1
  failed : ∀ failure, s.phase = .Returned (.error failure) → ∀ process ∈ s.spawned, process.life.isReaped = true
  atMostTwo : s.spawned.length ≤ 2
  second : ∀ first second rest, s.spawned = first :: second :: rest → first.exited = true ∧ first.reached = false

/-- Nobody else has answered a probe with 200, and a first child that was
    reached has not exited before any probe had a status. -/
def Allowed (s : State) : Event → Bool
  | .Look .Read => match s.phase with
    | .Reading .Stranger _ line => health line ≠ some 200
    | _ => true
  | .Look (.Checked readable) =>
    (s.found readable).isNone || s.first.isSome || s.everConnected || !s.child.any Process.reached
  | _ => true

/-- What is true of the runs in which neither has happened. -/
structure Faithful (s : State) : Prop where
  own : ∀ answered, s.phase = .Returned (.ok answered) →
    answered.party = .Child answered.child ∧ answered.living = true ∧ answered.child = s.number ∧ s.child.isSome
  lost : ∀ process ∈ s.before, process.exited = true ∧ process.reached = false

section
variable {machine : Launch.Machine} {server : Launch.Server} {entry : Entry} {root : String} {s s' : State}

theorem Faithful.beside (faithful : Faithful s) (beside : Beside s s') : Faithful s' where
  own answered returned := by
    rw [beside.phase] at returned
    obtain ⟨party,living,number,held⟩ := faithful.own answered returned
    refine ⟨party,living,by rw [State.number,beside.before]; exact number,?_⟩
    rcases beside.child with same | ⟨_,_,_,_,exits⟩
    · rwa [same]
    · rw [exits]
      rfl
  lost := by
    rw [beside.before]
    exact faithful.lost

/-- An attempt whose end was not a success of somebody else's, and not a retry
    for a child that had been reached. -/
theorem Faithful.ends (faithful : Faithful s) {fate : Loading Answered}
    (own : ∀ answered, fate = .Ready answered →
      answered.party = .Child answered.child ∧ answered.living = true ∧ answered.child = s.number ∧ s.child.isSome)
    (lost : ∀ status, fate = .Exited status false → s.first = none →
      ∀ child, s.child = some child → child.exited = true ∧ child.reached = false) :
    Faithful (s.ends machine server entry root fate) := by
  rcases ends_cases s fate with ⟨answered,ready,_,is⟩ | ⟨status,_,exited,first,_,is⟩ | ⟨_,_,_,_,is⟩
  · rw [is]
    refine ⟨?_,faithful.lost⟩
    rintro _ ⟨⟩
    exact own answered ready
  · rw [is]
    refine ⟨nofun,fun process member => ?_⟩
    rcases List.mem_append.mp member with earlier | was
    · exact faithful.lost process earlier
    · obtain ⟨child,held,rfl⟩ := Option.map_eq_some_iff.mp (Option.mem_toList.mp was)
      exact lost status exited first child held
  · rw [is]
    exact ⟨nofun,faithful.lost⟩

/-- The exit that is found is the child's own. -/
theorem found_life {readable : Bool} {status : String} (found : s.found readable = some status) :
    ∃ child, s.child = some child ∧ child.life = .Exited status := by
  rw [State.found] at found
  split_ifs at found
  obtain ⟨child,held,life⟩ := Option.bind_eq_some_iff.mp found
  refine ⟨child,held,?_⟩
  split at life
  next exited =>
    cases life
    exact exited
  next => cases life

theorem Faithful.look {look : Look} (sound : Sound machine server entry root s) (faithful : Faithful s)
    (may : Allowed s (.Look look) = true) (came : Looks machine server entry root s look s') : Faithful s' := by
  cases came with
  | chosen | unspawned | spawned | connected | answered => exact ⟨nofun,faithful.lost⟩
  | goes_on running between => exact ⟨fun answered returned => absurd returned (Phase.ne_returned between _),faithful.lost⟩
  | @exited readable status phase found =>
    refine faithful.ends nofun fun again fate first child held => ?_
    obtain ⟨process,was,life⟩ := found_life found
    rw [held] at was
    cases was
    have unanswered : s.everConnected = false := by
      injection fate
    refine ⟨(sound.started child held).2 status life,?_⟩
    simpa [Allowed,found,first,unanswered,held] using may
  | @ready party living line phase well =>
    refine faithful.ends (fun answered is => ?_) nofun
    cases is
    have held := (sound.running (by rw [phase]; rfl)).1
    cases party with
    | Stranger => simp [Allowed,phase,well] at may
    | Child number =>
      obtain ⟨rfl,alive⟩ := sound.reading number living line phase
      exact ⟨rfl,alive,rfl,held⟩
  | spent => exact faithful.ends nofun nofun

theorem faithful_of_reaches (reached : Reaches (starting machine server entry root) (fun s event => Allowed s event = true) s) :
    Faithful s := by
  refine reached.invariant ⟨nofun,nofun⟩ fun before event after reached faithful may steps => ?_
  cases event with
  | Outside outside => exact faithful.beside (outside_beside steps)
  | Look look => exact faithful.look (sound_of_reaches reached) may (looks steps)

theorem Sound.atMostOne (sound : Sound machine server entry root s) : s.before.length ≤ 1 := by
  have once := sound.once
  split_ifs at once <;> omega

theorem spawned_length (s : State) : s.spawned.length = s.before.length + s.child.toList.length := List.length_append

/-- Of two processes, the first belongs to an attempt that is over. -/
theorem first_of_two {first second : Process} {rest : List Process} (spawned : s.spawned = first :: second :: rest) :
    first ∈ s.before := by
  rw [State.spawned] at spawned
  cases before : s.before with
  | nil =>
    have single := Option.length_toList_le (o := s.child)
    rw [before,List.nil_append] at spawned
    rw [spawned] at single
    simp at single
  | cons process earlier =>
    rw [before,List.cons_append] at spawned
    rw [(List.cons.inj spawned).1]
    exact List.mem_cons_self

/-- In every run in which no stranger's 200 was read and no child that had been
    reached was lost for a retry, the start is honest. -/
theorem starts_honestly (machine : Launch.Machine) (server : Launch.Server) (entry : Entry) (root : String) (s : State)
    (reached : Reaches (starting machine server entry root) (fun s event => Allowed s event = true) s) : Honest s := by
  have sound := sound_of_reaches reached
  have faithful := faithful_of_reaches reached
  constructor
  · intro answered returned
    obtain ⟨party,living,number,held⟩ := faithful.own answered returned
    obtain ⟨child,held⟩ := Option.isSome_iff_exists.mp held
    refine ⟨party,living,?_⟩
    rw [spawned_length,held,number]
    rfl
  · exact sound.failed
  · have one := sound.atMostOne
    have single := Option.length_toList_le (o := s.child)
    have length := spawned_length s
    omega
  · intro first second rest spawned
    exact faithful.lost first (first_of_two spawned)

end

/-- The first line of a reply with this status. -/
def replyLine (status : String) : List Char := ("HTTP/1.1 " ++ status).toList

/-- An entry that is started on a machine with its file. -/
def startingModel : System State Event :=
  starting ⟨fun _ => true,none⟩ ⟨"/bin/llama-server"⟩ ⟨"m","m.gguf",none,none,4096,.OnDemand,8,none,none,30,none,[]⟩ "/models"

/-- A port is chosen and a process started with it. -/
def spawning (port : ℕ) : List Event := [.Look (.Chosen (.ok port)),.Look (.Spawned (.ok ()))]

/-- A look at a child that runs, and a reply from whoever listens. -/
def probing (status : String) : List Event :=
  [.Look (.Checked true),.Look (.Connected true),.Look (.Answers (replyLine status)),.Look .Read]

/-- The first child finds its port taken and exits; the second one loads, and
    answers. -/
def lostRace : List Event :=
  spawning 4000 ++ [.Outside .Takes,.Outside (.Exits "exit status: 1"),.Look (.Checked true)] ++
  spawning 4001 ++ [.Outside .Binds] ++ probing "503 Service Unavailable" ++ [.Look (.Judged false)] ++ probing "200 OK"

def State.handedOut (self : State) : Option (ℕ × Party) :=
  match self.phase with
  | .Returned (.ok answered) => some (answered.child,answered.party)
  | _ => none

theorem Honest.handedOut {s : State} (honest : Honest s) {number : ℕ} {party : Party} (out : s.handedOut = some (number,party)) :
    party = .Child number := by
  rw [State.handedOut] at out
  split at out
  next answered phase =>
    injection out with out
    injection out with number party
    rw [← number,← party]
    exact (honest.answered answered phase).1
  next => cases out

/-- A start that lost the race for its port hands out its second child. -/
theorem second_child_answers : ∃ s, s.handedOut = some (1,.Child 1) ∧ Honest s := by
  have passes : (startingModel.run Allowed startingModel.initial lostRace).any
      (fun s => decide (s.handedOut = some (1,.Child 1))) = true := by decide +kernel
  obtain ⟨s,reached,answered⟩ : ∃ s, Reaches startingModel (fun s event => Allowed s event = true) s ∧ _ :=
    Transition.exists_of_run (fun _ _ may => may) passes
  exact ⟨s,of_decide_eq_true answered,starts_honestly _ _ _ _ s reached⟩

section
variable {machine : Launch.Machine} {server : Launch.Server} {entry : Entry} {root : String} {s s' : State}

/-! ## The two ways to a start that is not -/

theorem Going.attempt (going : Going machine server entry root s) (answered : Answered) :
    Launch.attempt machine server entry root ⟨s.port,.ok (.Ready answered)⟩ = .ok answered := by
  rw [Launch.attempt,going]

theorem Going.lost (going : Going machine server entry root s) (status : String) :
    ∃ failure, Launch.attempt machine server entry root (⟨s.port,.ok (.Exited status false)⟩ : Attempt Answered) =
      .error (failure,true) :=
  ⟨_,by rw [Launch.attempt,going]; rfl⟩

theorem Going.spawns (going : Going machine server entry root s) : spawn machine server entry root s.port (.ok ()) = .ok () := by
  have timed := going .TimedOut
  rw [spawn]
  exact congrArg (Except.map fun _ => ()) timed

/-- A stranger's 200 is taken for the child's. -/
theorem stranger_taken (going : Going machine server entry root s) {living : Bool} {line : List Char} (well : health line = some 200)
    (steps : s.look machine server entry root (.Reading .Stranger living line) .Read = some s') : ¬ Honest s' := by
  rw [State.look,well] at steps
  simp only [State.ends,going.attempt,Option.some.injEq] at steps
  intro honest
  have own := (honest.answered ⟨s.number,.Stranger,living⟩ (by rw [← steps])).1
  cases own

/-- A first child that was reached is followed by a second one. -/
theorem reached_lost (sound : Sound machine server entry root s) (going : Going machine server entry root s) {status : String} {child : Process}
    (first : s.first = none) (held : s.child = some child) (reached : child.reached = true) :
    ∃ events s', (starting machine server entry root).run (fun _ _ => true)
      (s.ends machine server entry root (.Exited status false)) events = some s' ∧ ¬ Honest s' := by
  have none_over : s.before = [] := List.eq_nil_of_length_eq_zero (by simpa [first] using sound.once)
  obtain ⟨failure,lost⟩ := going.lost status
  refine ⟨[.Look (.Chosen s.port),.Look (.Spawned (.ok ()))],
    { s with
      phase := .Checking, child := some .new, everConnected := false, listener := none
      first := some ⟨s.port,.ok (.Exited status false)⟩, before := [child.stopped] },?_,?_⟩
  · have again : (s.ends machine server entry root (.Exited status false)) = { s.dropped with
        phase := .Choosing, child := none, first := some ⟨s.port,.ok (.Exited status false)⟩, before := [child.stopped] } := by
      simp [State.ends,lost,first,State.spawned,State.dropped,held,none_over]
    have spawns := going.spawns
    simp [System.run,starting,again,State.look,State.dropped,spawns]
  · intro honest
    have unreached := (honest.second child.stopped .new [] rfl).2
    rw [show child.stopped.reached = child.reached from rfl,reached] at unreached
    cases unreached

/-- A step that the condition excludes is one from which the start can go on
    to one that is not honest. -/
theorem dishonest_of_excluded {allowed : State → Event → Prop} (reached : Reaches (starting machine server entry root) allowed s)
    {event : Event} (excluded : Allowed s event = false) (steps : (starting machine server entry root).step s event = some s') :
    ∃ events s'', (starting machine server entry root).run (fun _ _ => true) s' events = some s'' ∧ ¬ Honest s'' := by
  have sound := sound_of_reaches reached
  cases event with
  | Outside => cases excluded
  | Look look =>
    have looked : s.look machine server entry root s.phase look = some s' := steps
    cases look with
    | Read =>
      rw [Allowed] at excluded
      split at excluded
      next living line phase =>
        have well : health line = some 200 := by simpa using excluded
        have going := (sound.running (by rw [phase]; rfl)).2
        exact ⟨[],s',rfl,stranger_taken going well (phase ▸ looked)⟩
      next => cases excluded
    | Checked readable =>
      have phase : s.phase = .Checking := by
        cases phase : s.phase with
        | Checking => rfl
        | _ =>
          rw [phase] at looked
          cases looked
      have going := (sound.running (by rw [phase]; rfl)).2
      simp only [Allowed,Bool.or_eq_false_iff,Bool.not_eq_false'] at excluded
      obtain ⟨⟨⟨found,again⟩,unanswered⟩,reached⟩ := excluded
      obtain ⟨status,found⟩ := Option.isSome_iff_exists.mp (Option.isNone_eq_false_iff.mp found)
      obtain ⟨child,held,_⟩ := found_life found
      have first : s.first = none := Option.isSome_eq_false_iff.mp again |> Option.isNone_iff_eq_none.mp
      have is : s' = s.ends machine server entry root (.Exited status false) := by
        simpa [phase,State.look,found,unanswered] using looked.symm
      rw [held] at reached
      rw [is]
      exact reached_lost sound going first held reached
    | _ => cases excluded

/-! ## What is returned is what a start comes to -/

/-- The answers of the machine that a start has gone by so far. -/
structure Explained (machine : Launch.Machine) (server : Launch.Server) (entry : Entry) (root : String) (s : State) : Prop where
  first : ∀ answer, s.first = some answer → ∃ failure, Launch.attempt machine server entry root answer = .error (failure,true)
  result : ∀ result, s.phase = .Returned result → ∃ first second, result = Launch.start machine server entry root first second

/-- The latest attempt's answer is the start's, unless there is to be another
    attempt. -/
theorem start_of_attempt (answer : Attempt Answered) (explained : Explained machine server entry root s)
    (final : s.first = none → ∀ failure, Launch.attempt machine server entry root answer ≠ .error (failure,true)) :
    ∃ first second, (Launch.attempt machine server entry root answer).mapError Prod.fst =
      Launch.start machine server entry root first second := by
  cases again : s.first with
  | none =>
    refine ⟨answer,answer,?_⟩
    rw [Launch.start]
    cases came : Launch.attempt machine server entry root answer with
    | ok answered => rfl
    | error refused =>
      obtain ⟨failure,lost⟩ := refused
      cases lost
      · rfl
      · exact absurd came (final again failure)
  | some before =>
    obtain ⟨failure,lost⟩ := explained.first before again
    exact ⟨before,answer,by rw [Launch.start,lost]⟩

theorem Explained.ends (explained : Explained machine server entry root s) (fate : Loading Answered) :
    Explained machine server entry root (s.ends machine server entry root fate) := by
  rcases ends_cases s fate with ⟨answered,_,came,is⟩ | ⟨_,failure,_,_,came,is⟩ | ⟨failure,lost,came,final,is⟩
  · rw [is]
    refine ⟨explained.first,?_⟩
    rintro _ ⟨⟩
    have start := start_of_attempt ⟨s.port,.ok fate⟩ explained fun _ _ => by rw [came]; nofun
    rwa [came] at start
  · rw [is]
    refine ⟨?_,nofun⟩
    rintro _ ⟨⟩
    exact ⟨failure,came⟩
  · rw [is]
    refine ⟨explained.first,?_⟩
    rintro _ ⟨⟩
    have start := start_of_attempt ⟨s.port,.ok fate⟩ explained fun none_before _ was => by
      rw [came] at was
      cases was
      exact final rfl none_before
    rwa [came] at start

theorem Explained.look {look : Look} (explained : Explained machine server entry root s)
    (came : Looks machine server entry root s look s') : Explained machine server entry root s' := by
  cases came with
  | chosen | spawned | connected | answered => exact ⟨explained.first,nofun⟩
  | goes_on running between => exact ⟨explained.first,fun result returned => absurd returned (Phase.ne_returned between result)⟩
  | @unspawned process failure phase refused =>
    refine ⟨explained.first,?_⟩
    rintro _ ⟨⟩
    have came : Launch.attempt machine server entry root (⟨s.port,process.map fun _ => .TimedOut⟩ : Attempt Answered) =
        .error (failure,false) := by
      rw [spawn] at refused
      rw [Launch.attempt]
      cases spawned : Launch.spawn machine server entry root (⟨s.port,process.map fun _ => .TimedOut⟩ : Attempt Answered) <;>
        rw [spawned] at refused <;> cases refused
      rfl
    have start := start_of_attempt _ explained fun _ _ was => by
      rw [came] at was
      cases was
    rwa [came] at start
  | exited | ready | spent => exact explained.ends _

/-- Whatever happens meanwhile, a start returns what it comes to for some answers
    of the machine. -/
theorem returns_start {allowed : State → Event → Prop} (reached : Reaches (starting machine server entry root) allowed s)
    {result : Except Failure Answered} (returned : s.phase = .Returned result) :
    ∃ first second, result = Launch.start machine server entry root first second := by
  have explained : Explained machine server entry root s := by
    refine reached.invariant ⟨nofun,nofun⟩ fun before event after _ explained _ steps => ?_
    cases event with
    | Outside outside =>
      have beside := outside_beside steps
      exact ⟨fun answer again => explained.first answer (beside.first ▸ again),fun result is => explained.result result (beside.phase ▸ is)⟩
    | Look look => exact explained.look (looks steps)
  exact explained.result result returned

end

/-! ## A stranger at the port, and a child that says nothing -/

/-- Somebody takes the port before the child does, and answers. -/
def strangerAnswers : List Event := spawning 4000 ++ [.Outside .Takes] ++ probing "200 OK"

/-- The first child accepts a connection, gives no status, and exits. -/
def silentChild : List Event :=
  spawning 4000 ++ [.Outside .Binds,.Look (.Checked true),.Look (.Connected true),.Look .NoAnswer,.Look (.Judged false),
    .Outside (.Exits "signal: 11 (SIGSEGV)"),.Look (.Checked true)] ++ spawning 4001

/-- A start hands out its child where a stranger answered for it, and starts a
    second child after one that it had reached. -/
theorem stranger_handed_out : (∃ s, Reaches startingModel (fun _ _ => True) s ∧ s.handedOut = some (0,.Stranger) ∧ ¬ Honest s) ∧
    ∃ s, Reaches startingModel (fun _ _ => True) s ∧ s.spawned.map Process.reached = [true,false] ∧ ¬ Honest s := by
  have stranger : (startingModel.run (fun _ _ => true) startingModel.initial strangerAnswers).any
      (fun s => decide (s.handedOut = some (0,.Stranger))) = true := by decide +kernel
  have silent : (startingModel.run (fun _ _ => true) startingModel.initial silentChild).any
      (fun s => decide (s.spawned.map Process.reached = [true,false])) = true := by decide +kernel
  constructor
  · obtain ⟨s,reached,answered⟩ : ∃ s, Reaches startingModel (fun _ _ => True) s ∧ _ :=
      Transition.exists_of_run (fun _ _ _ => trivial) stranger
    have out : s.handedOut = some (0,.Stranger) := of_decide_eq_true answered
    refine ⟨s,reached,out,fun honest => ?_⟩
    cases honest.handedOut out
  · obtain ⟨s,reached,passes⟩ : ∃ s, Reaches startingModel (fun _ _ => True) s ∧ _ :=
      Transition.exists_of_run (fun _ _ _ => trivial) silent
    have spawned : s.spawned.map Process.reached = [true,false] := of_decide_eq_true passes
    refine ⟨s,reached,spawned,fun honest => ?_⟩
    obtain ⟨first,rest,is,silent_first,others⟩ := List.map_eq_cons_iff.mp spawned
    obtain ⟨second,none_left,rfl,_⟩ := List.map_eq_cons_iff.mp others
    have unreached := (honest.second first second none_left is).2
    rw [silent_first] at unreached
    cases unreached

end Maestro.Starting
