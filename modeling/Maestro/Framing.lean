import Maestro.Relay

/-!
# The framing the router accepts, and the framing it sends on

`framing` refuses a request before anything is read, looked up or started. What
it lets through declares its lengths to the child exactly as it was received.
-/
namespace Maestro.Proxy
open Socket

def about : Endpoint → String
  | .Dedicated id _ => s!"entry '{String.ofList id}'"
  | .Generic _ => "the generic endpoint"
  | .Listing => "the model listing"
  | .Catalogue => "the catalogue"
  | .Properties => "the server's properties"

/-- Refuses the framing this router does not implement, or cannot read. -/
def framing (request : Head) : Except Refusal Unit :=
  if request.chunked then
    .error ⟨.ChunkedBody,s!"{about request.endpoint}: this router does not implement chunked request bodies; " ++
      "send a body with a Content-Length"⟩
  else match request.length with
    | .Malformed value =>
      .error ⟨.MalformedLength,s!"'Content-Length: {String.ofList value}' is not a length this router can read; " ++
        "send a byte count, or no such header at all"⟩
    | _ => .ok ()

def MAX_BODY_BYTES : ℕ := 8 * 1024 * 1024

/-- How long a body the generic endpoint is about to read, if it may. -/
def declaredBody (length : Length) : Except Refusal ℕ :=
  match length with
  | .Given declared =>
    if declared > MAX_BODY_BYTES then
      .error ⟨.BodyTooLarge,s!"a request body of {declared} bytes is larger than the {MAX_BODY_BYTES} this router " ++
        "will read"⟩
    else .ok declared
  | _ => .error ⟨.LengthRequired,"the generic endpoint routes on the 'model' field of the request body, so it needs " ++
      "one and a Content-Length that declares it; or address a model directly at /models/<model>/<path>"⟩

/-! ## The lengths that are declared -/

/-- The body arrives in full: what was buffered is as long as was declared, or
    the caller's side has as much still to give. -/
def SentInFull (head : Head) (body : Option (List UInt8)) (reader : Source) : Prop :=
  match body with
  | some bytes => bytes.length = head.bodyBytes
  | none => head.bodyBytes ≤ reader.bytes.length

theorem bodySent_in_full {head : Head} {body : Option (List UInt8)} {reader : Source}
    (full : SentInFull head body reader) : bodySent head body reader = head.bodyBytes := by
  cases body with
  | some bytes => exact full
  | none => exact Nat.min_eq_left full

theorem framing_ok_iff {head : Head} :
    framing head = .ok () ↔ head.chunked = false ∧ ∀ value, head.length ≠ .Malformed value := by
  unfold framing
  cases chunked : head.chunked with
  | true => simp
  | false =>
    cases length : head.length <;> simp

theorem declaredBody_ok_iff {length : Length} {declared : ℕ} :
    declaredBody length = .ok declared ↔ length = .Given declared ∧ declared ≤ MAX_BODY_BYTES := by
  cases length with
  | Given value =>
    rw [declaredBody]
    by_cases large : value > MAX_BODY_BYTES
    · rw [if_pos large]
      refine ⟨fun is => (by cases is),?_⟩
      rintro ⟨is,small⟩
      cases is
      omega
    · rw [if_neg large]
      constructor
      · intro is
        cases is
        exact ⟨rfl,Nat.not_lt.mp large⟩
      · rintro ⟨is,_⟩
        cases is
        rfl
  | _ => simp [declaredBody]

theorem framing_malformed_iff {head : Head} : (∃ message, framing head = .error ⟨.MalformedLength,message⟩) ↔
    head.chunked = false ∧ ∃ value, head.length = .Malformed value := by
  unfold framing
  cases chunked : head.chunked with
  | true => simp
  | false =>
    cases length : head.length <;> simp

theorem lengthOf_malformed_iff {value : List Char} : (∃ kept, lengthOf value = .Malformed kept) ↔ parseLength value = none := by
  unfold lengthOf
  cases parseLength value <;> simp

section Lengths
variable {lines : List (List Char)} {head : Head} (parses : parse lines = .ok head)
include parses

theorem length_of_last : head.length = ((lengthsOf (headersOf lines)).getLast?.map lengthOf).getD .Absent :=
  (parse_ok parses).2.1

theorem malformed_iff_last : (∃ value, head.length = .Malformed value) ↔
    ∃ value, (lengthsOf (headersOf lines)).getLast? = some value ∧ parseLength value = none := by
  rw [length_of_last parses]
  cases (lengthsOf (headersOf lines)).getLast? with
  | none => simp
  | some last => simpa using lengthOf_malformed_iff

/-- The number of body bytes is the last length declared, where it can be read. -/
theorem bodyBytes_of_last {last : List Char} {bytes : ℕ} (is : (lengthsOf (headersOf lines)).getLast? = some last)
    (reads : parseLength last = some bytes) : head.bodyBytes = bytes := by
  rw [Head.bodyBytes,length_of_last parses,is]
  simp [lengthOf,reads]

end Lengths

end Maestro.Proxy
