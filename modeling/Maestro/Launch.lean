import Maestro.Catalog
import Maestro.Refusal

/-!
# Taking one entry as far as a ready child

What the launcher asks the machine, in the order it asks. The machine's files
and its search path stand still during a call; a port, a process and what
becomes of it are the machine's answer to one attempt.
-/
namespace Maestro.Launch

/-- The files of a machine and the directories of its search path, when it has
    one. -/
structure Machine where
  isFile : String → Bool
  searchPath : Option (List String)

/-- A location under a directory; an absolute one stands for itself. -/
def join (base location : String) : String :=
  if location.toList.head? = some '/' then location
  else if base = "" ∨ base.toList.getLast? = some '/' then base ++ location
  else base ++ "/" ++ location

def runtimeNamed (runtime : String) : String := "llama-server-" ++ runtime

/-- The first match for a name on the search path. -/
def Machine.onSearchPath (self : Machine) (name : String) : Option String :=
  self.searchPath.bind fun search => (search.map fun directory => join directory name).find? self.isFile

/-- Where a named runtime resolves to, if anywhere. -/
def Machine.runtimeBinary (self : Machine) (runtime : String) : Option String := self.onSearchPath (runtimeNamed runtime)

structure Server where
  binary : String

/-- What becomes of a process while its readiness is asked for. -/
inductive Loading (C : Type)
  | Ready (child : C)
  | Exited (status : String) (everConnected : Bool)
  | TimedOut

/-- What the machine answers one attempt with: a port or why none was free, and
    a process or why none was started. -/
structure Attempt (C : Type) where
  port : Except String ℕ
  process : Except String (Loading C)

section
variable {C : Type} (machine : Machine) (server : Server) (entry : Entry) (root : String)

/-- Where this entry's model file is, if the models root carries it. -/
def modelFile : Except Failure String :=
  let model := join root entry.path
  if machine.isFile model then .ok model
  else .error (.Unavailable s!"entry '{entry.id}': no model file at '{model}'")

/-- The binary this entry is served from: the router's own, unless the entry
    names a runtime. -/
def binaryFor : Except Failure String :=
  match entry.runtime with
  | none => .ok server.binary
  | some runtime => match machine.runtimeBinary runtime with
    | some binary => .ok binary
    | none => .error (.Unavailable (s!"entry '{entry.id}' needs the '{runtime}' runtime, and nothing named " ++
        s!"'{runtimeNamed runtime}' is on the search path"))

/-- A process, before anything has asked whether it is ready. -/
def spawn (answer : Attempt C) : Except Failure (Loading C) := do
  let _ ← modelFile machine entry root
  let _ ← answer.port.mapError fun error => .Unavailable s!"entry '{entry.id}': no loopback port was free: {error}"
  let _ ← binaryFor machine server entry
  answer.process.mapError fun error =>
    .Unavailable s!"entry '{entry.id}': the server binary '{server.binary}' would not start: {error}"

/-- One spawn, polled until it answers, dies or exhausts its budget. An error
    carries whether the child died without ever answering. -/
def attempt (answer : Attempt C) : Except (Failure × Bool) C :=
  match spawn machine server entry root answer with
  | .error failure => .error (failure, false)
  | .ok (.Ready child) => .ok child
  | .ok (.Exited status everConnected) =>
    .error (.Unavailable s!"entry '{entry.id}': the server exited while loading ({status})", !everConnected)
  | .ok .TimedOut =>
    .error (.NotReady (s!"entry '{entry.id}': not ready within its startup budget of " ++
      s!"{entry.startupTimeoutSeconds} seconds"), false)

/-- Starts one entry, once more when the first child lost the race for its
    port. -/
def start (first second : Attempt C) : Except Failure C :=
  match attempt machine server entry root first with
  | .error (_, true) => (attempt machine server entry root second).mapError Prod.fst
  | .error (failure, false) => .error failure
  | .ok child => .ok child

/-! ## A start the machine already shows to be impossible -/

/-- The model file is not under the root. -/
def NoModel : Prop := machine.isFile (join root entry.path) = false

/-- The entry names a runtime that is not on the search path. -/
def NoRuntime : Prop := ∃ runtime, entry.runtime = some runtime ∧ machine.runtimeBinary runtime = none

/-- The start is impossible for a reason the machine shows beforehand. -/
def Impossible : Prop := NoModel machine entry root ∨ NoRuntime machine entry

variable {machine server entry root}

theorem modelFile_of_noModel (missing : NoModel machine entry root) : ∃ failure, modelFile machine entry root = .error failure :=
  ⟨_,by rw [modelFile,missing]; rfl⟩

theorem modelFile_of_present (present : ¬ NoModel machine entry root) :
    modelFile machine entry root = .ok (join root entry.path) := by
  rw [NoModel,Bool.not_eq_false] at present
  rw [modelFile,present]
  rfl

theorem binaryFor_nowhere (absent : NoRuntime machine entry) : ∃ failure, binaryFor machine server entry = .error failure := by
  obtain ⟨runtime,named,nowhere⟩ := absent
  exact ⟨_,by simp only [binaryFor,named,nowhere]; rfl⟩

/-- What the machine already shows ends a spawn, whatever port and process the
    machine would have answered it with. -/
theorem spawn_impossible (impossible : Impossible machine entry root) (answer : Attempt C) :
    ∃ failure, spawn machine server entry root answer = .error failure := by
  rw [spawn]
  cases found : modelFile machine entry root with
  | error failure => exact ⟨failure,rfl⟩
  | ok model =>
    have absent : NoRuntime machine entry := by
      rcases impossible with missing | absent
      · obtain ⟨failure,refused⟩ := modelFile_of_noModel missing
        rw [found] at refused
        cases refused
      · exact absent
    cases answer.port with
    | error error => exact ⟨_,rfl⟩
    | ok port =>
      obtain ⟨failure,refused⟩ := binaryFor_nowhere absent
      refine ⟨failure,?_⟩
      rw [refused]
      rfl

/-- An impossible start is an error, and no second attempt is made. -/
theorem start_impossible (impossible : Impossible machine entry root) (first second : Attempt C) :
    ∃ failure, start machine server entry root first second = .error failure := by
  obtain ⟨failure,ends⟩ := spawn_impossible impossible first
  refine ⟨failure,?_⟩
  have attempted : attempt machine server entry root first = .error (failure,false) := by rw [attempt,ends]
  rw [start,attempted]

end
end Maestro.Launch
