import Maestro.Json
import Maestro.Utf8
import Maestro.Catalog
import Maestro.Endpoint

/-!
# What the router says in its own voice

A refusal, the model listing, the catalogue, the properties and a preflight
answer, each as one reply with a status, a declared length and a closed
connection.
-/
namespace Maestro.Proxy

/-- One complete reply the router authored. -/
structure Reply where
  status : ℕ
  contentType : Option String
  headers : List (String × String)
  body : List Char
  headOnly : Bool
deriving DecidableEq, Repr

/-- The reason phrase a status carries. -/
def reason (status : ℕ) : String :=
  match status with
  | 200 => "OK"
  | 204 => "No Content"
  | 400 => "Bad Request"
  | 404 => "Not Found"
  | 405 => "Method Not Allowed"
  | 408 => "Request Timeout"
  | 411 => "Length Required"
  | 413 => "Content Too Large"
  | 431 => "Request Header Fields Too Large"
  | 501 => "Not Implemented"
  | 502 => "Bad Gateway"
  | 503 => "Service Unavailable"
  | _ => "Gateway Timeout"

/-- The text of a reply on the wire. -/
def Reply.text (self : Reply) : List Char :=
  s!"HTTP/1.1 {self.status} {reason self.status}\r\n".toList ++
    (self.contentType.elim [] fun contentType => s!"Content-Type: {contentType}\r\n".toList) ++
    s!"Content-Length: {(Utf8.encode self.body).length}\r\n".toList ++
    (self.headers.flatMap fun (name,value) => s!"{name}: {value}\r\n".toList) ++
    "Access-Control-Allow-Origin: *\r\n".toList ++ "Connection: close\r\n\r\n".toList ++
    (if self.headOnly then [] else self.body)

/-- The envelope of a refusal: the shape OpenAI-compatible clients parse. -/
def envelope (refusal : Refusal) : Json :=
  .obj [("error",.obj [("code",.str refusal.cause.code),("message",.str refusal.message),
    ("type",.str refusal.cause.family)])]

/-- Refuses a request, before a byte of any child's response was forwarded. -/
def refuse (refusal : Refusal) : Reply :=
  let retry := refusal.cause.retryAfterSeconds.elim [] fun seconds => [("Retry-After",toString seconds)]
  let allow := match refusal.cause with
    | .MethodNotAllowed allowed => [("Allow",allowed)]
    | _ => []
  ⟨refusal.cause.status,some "application/json",retry ++ allow,(envelope refusal).text,false⟩

/-- A value the router authored. -/
def json (value : Json) (headOnly : Bool) : Reply := ⟨200,some "application/json",[],value.text,headOnly⟩

/-- Every entry the catalog carries. -/
def listing (catalog : Catalog) (headOnly : Bool) : Reply :=
  let data := catalog.entries.map fun entry =>
    Json.obj [("id",.str entry.id),("object",.str "model"),("owned_by",.str "maestro-llamacpp")]
  json (.obj [("data",.arr data),("object",.str "list")]) headOnly

/-- Every entry that can hold a conversation, with whether it is among those
    loaded and what it was measured holding. -/
def catalogue (catalog : Catalog) (loaded : List String) (held : List (String × Option ℕ)) (headOnly : Bool) : Reply :=
  let data := (catalog.entries.filter Entry.generates).map fun entry =>
    Json.obj
      [("architecture",.obj [("input_modalities",.arr (entry.accepts.map .str))]),
       ("id",.str entry.id),
       ("memory",.obj
         [("declared_mib",.nat entry.memoryEstimateMib),
          ("held_mib",((held.lookup entry.id).join).elim .null .nat)]),
       ("meta",.obj [("n_ctx",.nat entry.contextSize)]),
       ("object",.str "model"),
       ("owned_by",.str "maestro-llamacpp"),
       ("source",.str "preset"),
       ("status",.obj [("failed",.bool false),("value",.str (if entry.id ∈ loaded then "loaded" else "unloaded"))])]
  json (.obj [("data",.arr data),("object",.str "list")]) headOnly

/-- What this server does, as the one field a client reads from it. -/
def properties (headOnly : Bool) : Reply := json (.obj [("models_autoload",.bool true)]) headOnly

/-- Answers a preflight: what this endpoint accepts, from any page. -/
def preflight (endpoint : Endpoint) : Reply :=
  ⟨204,none,[("Allow",endpoint.allowedText),("Access-Control-Allow-Methods",endpoint.allowedText),
    ("Access-Control-Allow-Headers","*"),("Access-Control-Max-Age","86400")],[],true⟩

/-- Every status the router gives a cause has a phrase of its own. -/
theorem reason_of_cause (cause : Cause) (other : cause ≠ .StartupTimeout) : reason cause.status ≠ "Gateway Timeout" := by
  cases cause <;> first | exact absurd rfl other | simp [Cause.status,Cause.describe,reason]

/-- A refusal says when to come back exactly where the room was contended. -/
theorem refuse_retry_iff (refusal : Refusal) :
    (∃ seconds, ("Retry-After",seconds) ∈ (refuse refusal).headers) ↔ refusal.cause = .RoomContended := by
  rcases refusal with ⟨cause,message⟩
  cases cause <;> simp [refuse,Cause.retryAfterSeconds]

end Maestro.Proxy
