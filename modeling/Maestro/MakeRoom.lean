import Maestro.Admission
import Maestro.Refusal

/-!
# Making room for a model, and waiting when the room is held

One pass of the loop in `make_room`: the decision is taken, acted on, and the
pass ends with room, with a failure, or asleep until the next one.
-/
namespace Maestro.MakeRoom
open Admission

/-- Whole seconds of a duration in nanoseconds. -/
def asSecs (duration : ℕ) : ℕ := duration / 1000000000

/-- The refusal a caller sees when the wait ran out. -/
def refused (id held : String) (waited : ℕ) : Failure :=
  if waited = 0 then
    .Contended s!"{held}; this may succeed on a retry, or set MAESTRO_ADMISSION_WAIT_SECONDS to wait for the room"
  else .Contended s!"{held}; '{id}' waited {asSecs waited}s and the room did not free up"

/-- How one pass ends. -/
inductive Turn
  | Room
  | Fails (failure : Failure)
  | Sleeps
deriving DecidableEq, Repr

/-- The end of a pass whose room is held: the wait has expired or the loop
    sleeps. -/
def heldBy (id held : String) (waited : ℕ) (expired : Bool) : Turn :=
  if expired then .Fails (refused id held waited) else .Sleeps

/-- One pass, for a decision and, where it was to unload, the entry that had
    gained a reader before its turn came. -/
def turn (id : String) (decision : Decision) (blocker : Option String) (waited : ℕ) (expired : Bool) : Turn :=
  match decision with
  | .Fits => .Room
  | .Unload _ => match blocker with
    | none => .Room
    | some blocker => heldBy id s!"'{id}' needs room held by '{blocker}', which a request reached first" waited expired
  | .Blocked message => heldBy id message waited expired
  | .Refuse message => .Fails (.Refused message)

/-- A pass after which the caller is to come back: the loop sleeps, or it fails
    with a refusal that carries a `Retry-After`. -/
def Turn.Waits : Turn → Prop
  | .Room => False
  | .Fails failure => (Refusal.from failure).cause.retryAfterSeconds ≠ none
  | .Sleeps => True

theorem heldBy_waits (id held : String) (waited : ℕ) (expired : Bool) : (heldBy id held waited expired).Waits := by
  cases expired with
  | false => trivial
  | true =>
    change (Refusal.from (refused id held waited)).cause.retryAfterSeconds ≠ none
    rw [retry_after_iff,refused]
    split_ifs <;> exact ⟨_,rfl⟩

/-- A pass waits for what is busy, seen in the decision or met while unloading,
    and for nothing else. -/
theorem turn_waits_iff (id : String) (decision : Decision) (blocker : Option String) (waited : ℕ) (expired : Bool) :
    (turn id decision blocker waited expired).Waits ↔
      (∃ message, decision = .Blocked message) ∨ (∃ ids, decision = .Unload ids) ∧ blocker ≠ none := by
  cases decision with
  | Fits => simp [turn,Turn.Waits]
  | Unload ids =>
    cases blocker with
    | none => simp [turn,Turn.Waits]
    | some blocker => simp [turn,heldBy_waits]
  | Blocked message => simp [turn,heldBy_waits]
  | Refuse message => simp [turn,Turn.Waits,Refusal.from,Cause.retryAfterSeconds]

end Maestro.MakeRoom
