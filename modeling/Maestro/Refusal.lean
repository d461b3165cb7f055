import Mathlib.Data.Nat.Notation

/-!
# Why a request was refused, and what a client is told about it

A launcher's failure, the cause it earns, and what is read off a cause: the
status, the code, and whether waiting can change the answer.
-/
namespace Maestro

/-- Why an entry could not be served. -/
inductive Failure
  | NotReady (message : String)
  | Unavailable (message : String)
  | Refused (message : String)
  | Contended (message : String)
deriving DecidableEq, Repr

def Failure.message : Failure → String
  | .NotReady message | .Unavailable message | .Refused message | .Contended message => message

inductive Cause
  | MalformedRequest
  | HeadTooLarge
  | RequestTimeout
  | PathNotFound
  | ModelNotFound
  | MethodNotAllowed (allowed : String)
  | ChunkedBody
  | MalformedLength
  | LengthRequired
  | BodyTooLarge
  | BodyIncomplete
  | BodyNotJson
  | ModelMissing
  | ChildUnavailable
  | StartupTimeout
  | RoomContended
  | NoRoom
deriving DecidableEq, Repr

/-- The status and the code. -/
def Cause.describe : Cause → ℕ × String
  | .MalformedRequest => (400, "malformed_request")
  | .HeadTooLarge => (431, "request_head_too_large")
  | .RequestTimeout => (408, "request_timeout")
  | .PathNotFound => (404, "path_not_found")
  | .ModelNotFound => (404, "model_not_found")
  | .MethodNotAllowed _ => (405, "method_not_allowed")
  | .ChunkedBody => (501, "chunked_body_not_implemented")
  | .MalformedLength => (400, "malformed_content_length")
  | .LengthRequired => (411, "content_length_required")
  | .BodyTooLarge => (413, "body_too_large")
  | .BodyIncomplete => (400, "body_incomplete")
  | .BodyNotJson => (400, "body_not_json")
  | .ModelMissing => (400, "model_missing")
  | .ChildUnavailable => (502, "child_unavailable")
  | .StartupTimeout => (504, "startup_timeout")
  | .RoomContended => (503, "room_contended")
  | .NoRoom => (503, "insufficient_room")

def Cause.status (self : Cause) : ℕ := self.describe.1

def Cause.code (self : Cause) : String := self.describe.2

def Cause.retryAfterSeconds : Cause → Option ℕ
  | .RoomContended => some 1
  | _ => none

/-- The family an OpenAI-compatible client reads first. -/
def Cause.family (self : Cause) : String := if self.status < 500 then "invalid_request_error" else "server_error"

structure Refusal where
  cause : Cause
  message : String
deriving DecidableEq, Repr

/-- A launcher's failure, as the refusal it earns. -/
def Refusal.from (failure : Failure) : Refusal :=
  let cause := match failure with
    | .NotReady _ => .StartupTimeout
    | .Unavailable _ => .ChildUnavailable
    | .Contended _ => .RoomContended
    | .Refused _ => .NoRoom
  ⟨cause,failure.message⟩

/-- A caller is told when to come back exactly where the room was contended. -/
theorem retry_after_iff (failure : Failure) :
    (Refusal.from failure).cause.retryAfterSeconds ≠ none ↔ ∃ message, failure = .Contended message := by
  cases failure <;> simp [Refusal.from,Cause.retryAfterSeconds]

/-- Every refusal is an error to the client, and a server's own exactly from
    status 500. -/
theorem status_is_error (cause : Cause) : 400 ≤ cause.status ∧ cause.status < 600 ∧
    (cause.family = "server_error" ↔ 500 ≤ cause.status) := by
  cases cause <;> simp [Cause.status,Cause.family,Cause.describe]

end Maestro
