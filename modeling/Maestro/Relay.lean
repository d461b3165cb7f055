import Maestro.Head

/-!
# Copying bytes between the caller's connection and the child's

Upstream is the connection to the child, downstream the connection to the
caller. How many bytes each read delivers is a parameter.
-/
namespace Maestro.Proxy
open Socket

def BUFFER : ℕ := 8 * 1024

/-- What a child's socket does: whether it accepts a connection, how much it
    takes, and what it answers. -/
structure Peer where
  refuses : Option IoError
  takes : Option (ℕ × IoError)
  answers : Source
deriving DecidableEq, Repr

/-- A child as the relay sees it. -/
structure Child where
  endpoint : SocketAddr
  peer : Peer

/-- The loop of `forward_body`, with `remaining` bytes to copy. -/
def forwardFrom (arrives : ℕ → ℕ) (turn remaining : ℕ) (reader : Source) (upstream : Sink) :
    Source × Sink × Option IoError :=
  if _more : 0 < remaining then
    match reader.readSome (arrives turn) (min remaining BUFFER) with
    | .error error => (reader,upstream,some error)
    | .ok (read,rest) =>
      if _ended : read.length = 0 then (rest,upstream,none)
      else match upstream.writeAll read with
        | (upstream,some error) => (rest,upstream,some error)
        | (upstream,none) => forwardFrom arrives (turn + 1) (remaining - read.length) rest upstream
  else (reader,upstream,none)
termination_by remaining

/-- Copies exactly the body the caller declared. -/
def forwardBody (arrives : ℕ → ℕ) (head : Head) (reader : Source) (upstream : Sink) : Source × Sink × Option IoError :=
  forwardFrom arrives 0 head.bodyBytes reader upstream

/-- Copies the response until the child closes or the caller hangs up. -/
def copyResponse (arrives : ℕ → ℕ) (turn : ℕ) (upstream : Source) (downstream : Sink) : Sink :=
  match _is : upstream.readSome (arrives turn) BUFFER with
  | .error _ => downstream
  | .ok (read,rest) =>
    if _ended : read.length = 0 then downstream
    else match downstream.writeAll read with
      | (downstream,some _) => downstream
      | (downstream,none) => copyResponse arrives (turn + 1) rest downstream
termination_by upstream.bytes.length
decreasing_by
  have lengths := congrArg List.length (readSome_split (by decide) _is)
  rw [List.length_append] at lengths
  omega

/-- What one relay comes to: what the child was sent, what the caller was sent,
    and the failure that ended it before the response, if one did. -/
structure Relayed where
  upstream : List UInt8
  downstream : List UInt8
  failure : Option IoError
deriving DecidableEq, Repr

/-- The part of the relay that sends the body. -/
def sendBody (arrives : ℕ → ℕ) (head : Head) (body : Option (List UInt8)) (reader : Source) (upstream : Sink) :
    Sink × Option IoError :=
  match body with
  | some bytes => upstream.writeAll bytes
  | none => (forwardBody arrives head reader upstream).2

/-- Forwards one request and copies the response back as it arrives. -/
def run (arrives answers : ℕ → ℕ) (head : Head) (child : Child) (body : Option (List UInt8)) (reader : Source) : Relayed :=
  match child.peer.refuses with
  | some error => ⟨[],[],some error⟩
  | none =>
    let upstream : Sink := ⟨[],child.peer.takes⟩
    match upstream.writeAll (Utf8.encode (head.rewrite child.endpoint)) with
    | (upstream,some error) => ⟨upstream.written,[],some error⟩
    | (upstream,none) =>
      match sendBody arrives head body reader upstream with
      | (upstream,some error) => ⟨upstream.written,[],some error⟩
      | (upstream,none) => ⟨upstream.written,(copyResponse answers 0 child.peer.answers ⟨[],none⟩).written,none⟩

/-! ## The body that is forwarded -/

/-- One turn of the loop: nothing is left to copy or to read, or a part of the
    body is written and the rest goes on from there. -/
theorem forwardFrom_step (arrives : ℕ → ℕ) (turn remaining : ℕ) (reader : Source) (upstream : Sink) :
    (remaining = 0 ∧ forwardFrom arrives turn remaining reader upstream = (reader,upstream,none)) ∨
    (0 < remaining ∧ reader.bytes = [] ∧
      forwardFrom arrives turn remaining reader upstream = (reader,upstream,reader.failure)) ∨
    ∃ read rest, 0 < read.length ∧ read.length ≤ remaining ∧ reader.bytes = read ++ rest.bytes ∧
      rest.failure = reader.failure ∧ forwardFrom arrives turn remaining reader upstream =
        match upstream.writeAll read with
        | (upstream,some error) => (rest,upstream,some error)
        | (upstream,none) => forwardFrom arrives (turn + 1) (remaining - read.length) rest upstream := by
  rw [forwardFrom]
  by_cases more : 0 < remaining
  · right
    rw [dif_pos more]
    have wants : 0 < min remaining BUFFER := Nat.lt_min.mpr ⟨more,by decide⟩
    by_cases ended : reader.bytes = []
    · left
      rw [readSome_ended ended]
      cases failure : reader.failure <;> exact ⟨more,ended,rfl⟩
    · right
      obtain ⟨read,rest,reads,split,failure,some,bound⟩ := readSome_filled (arrives turn) ended wants
      refine ⟨read,rest,some,le_trans bound (min_le_left _ _),split,failure,?_⟩
      rw [reads]
      exact dif_neg (Nat.pos_iff_ne_zero.mp some)
  · left
    rw [dif_neg more]
    exact ⟨by omega,rfl⟩

/-- Whatever sizes it arrives in, the body is copied up to its declared length
    and no further, and the copy fails exactly when the child takes no more of
    it or the caller's side fails before its end. -/
theorem forwardFrom_spec (arrives : ℕ → ℕ) (turn remaining : ℕ) (reader : Source) (upstream : Sink) :
    ((forwardFrom arrives turn remaining reader upstream).2.2 = none ↔
      upstream.Takes (min remaining reader.bytes.length) ∧ (reader.bytes.length < remaining → reader.failure = none)) ∧
    (upstream.Takes (min remaining reader.bytes.length) →
      (forwardFrom arrives turn remaining reader upstream).1.bytes = reader.bytes.drop remaining ∧
      (forwardFrom arrives turn remaining reader upstream).2.1.written = upstream.written ++ reader.bytes.take remaining) := by
  induction remaining using Nat.strong_induction_on generalizing turn reader upstream with
  | _ remaining ih =>
    rcases forwardFrom_step arrives turn remaining reader upstream with
      ⟨rfl,is⟩ | ⟨more,ended,is⟩ | ⟨read,rest,some,bound,split,failure,is⟩
    · rw [is]
      refine ⟨?_,fun _ => by simp⟩
      simp [Sink.Takes]
    · rw [is]
      refine ⟨?_,fun _ => by simp [ended]⟩
      simp [Sink.Takes,ended,more]
    · have length : reader.bytes.length = read.length + rest.bytes.length := by rw [split,List.length_append]
      by_cases takes : upstream.Takes read.length
      · have written := writeAll_takes.mpr takes
        have onward : forwardFrom arrives turn remaining reader upstream =
            forwardFrom arrives (turn + 1) (remaining - read.length) rest (upstream.writeAll read).1 := by
          rw [is]
          rcases result : upstream.writeAll read with ⟨sink,error⟩
          rw [result] at written
          obtain rfl : error = none := written
          rfl
        obtain ⟨fails,moved⟩ := ih (remaining - read.length) (by omega) (turn + 1) rest (upstream.writeAll read).1
        have room : (upstream.writeAll read).1.Takes (min (remaining - read.length) rest.bytes.length) ↔
            upstream.Takes (min remaining reader.bytes.length) := by
          rw [takes_after takes]
          have same : read.length + min (remaining - read.length) rest.bytes.length = min remaining reader.bytes.length := by
            omega
          rw [same]
        rw [onward]
        refine ⟨?_,fun all => ?_⟩
        · rw [fails,room,failure]
          have same : rest.bytes.length < remaining - read.length ↔ reader.bytes.length < remaining := by omega
          rw [same]
        · obtain ⟨left,sent⟩ := moved (room.mpr all)
          rw [left,sent,writeAll_written takes,split]
          have cut : read.take remaining = read := List.take_of_length_le bound
          have dropped : read.drop remaining = [] := List.drop_of_length_le bound
          refine ⟨?_,?_⟩
          · rw [List.drop_append,dropped,List.nil_append]
          · rw [List.take_append,cut,List.append_assoc]
      · have refused : ¬ upstream.Takes (min remaining reader.bytes.length) := fun all => takes (all.mono (by omega))
        refine ⟨?_,fun all => absurd all refused⟩
        have error := writeAll_takes.not.mpr takes
        rw [is]
        rcases result : upstream.writeAll read with ⟨sink,problem⟩
        rw [result] at error
        cases problem with
        | none => exact absurd rfl error
        | some problem => simp [refused]

/-- Copied in whatever sizes it arrives in, a body that is there is written as if
    it had been written at once. -/
theorem forwardFrom_writes (arrives : ℕ → ℕ) (turn remaining : ℕ) (reader : Source) (upstream : Sink)
    (full : remaining ≤ reader.bytes.length) :
    (forwardFrom arrives turn remaining reader upstream).2 = upstream.writeAll (reader.bytes.take remaining) := by
  induction remaining using Nat.strong_induction_on generalizing turn reader upstream with
  | _ remaining ih =>
    rcases forwardFrom_step arrives turn remaining reader upstream with
      ⟨rfl,is⟩ | ⟨more,ended,_⟩ | ⟨read,rest,some,bound,split,_,is⟩
    · rw [is,List.take_zero]
      rcases upstream with ⟨written,_ | ⟨room,error⟩⟩ <;> simp [Sink.writeAll]
    · rw [ended,List.length_nil] at full
      omega
    · have length : reader.bytes.length = read.length + rest.bytes.length := by rw [split,List.length_append]
      have parts : reader.bytes.take remaining = read ++ rest.bytes.take (remaining - read.length) := by
        rw [split,List.take_append,List.take_of_length_le bound]
      have onward (sink : Sink) := ih (remaining - read.length) (by omega) (turn + 1) rest sink (by omega)
      rw [is,parts,writeAll_append]
      rcases upstream.writeAll read with ⟨after,_ | error⟩
      · exact onward after
      · rfl

/-! ## The response, and the whole relay -/

/-- Once the child has nothing more to send the copy is over. -/
theorem copyResponse_ended (arrives : ℕ → ℕ) (turn : ℕ) {upstream : Source} (downstream : Sink) (ended : upstream.bytes = []) :
    copyResponse arrives turn upstream downstream = downstream := by
  have reads := readSome_ended ended (arrives turn) BUFFER
  rw [copyResponse]
  split
  · rfl
  · rename_i stops
    rw [reads] at stops
    cases failure : upstream.failure <;> rw [failure] at stops <;> cases stops
    rfl

/-- A turn in which something is read. -/
theorem copyResponse_reads {arrives : ℕ → ℕ} {turn : ℕ} {upstream rest : Source} {read : List UInt8} (downstream : Sink)
    (reads : upstream.readSome (arrives turn) BUFFER = .ok (read,rest)) (filled : 0 < read.length) :
    copyResponse arrives turn upstream downstream = match downstream.writeAll read with
      | (downstream,some _) => downstream
      | (downstream,none) => copyResponse arrives (turn + 1) rest downstream := by
  rw [copyResponse]
  split
  · rename_i stops
    rw [reads] at stops
    cases stops
  · rename_i goes
    rw [reads] at goes
    cases goes
    rw [dif_neg (Nat.pos_iff_ne_zero.mp filled)]

/-- A caller that stays is sent everything the child answers. -/
theorem copyResponse_all (arrives : ℕ → ℕ) (turn : ℕ) (upstream : Source) (written : List UInt8) :
    copyResponse arrives turn upstream ⟨written,none⟩ = ⟨written ++ upstream.bytes,none⟩ := by
  induction left : upstream.bytes.length using Nat.strong_induction_on generalizing turn upstream written with
  | _ length ih =>
    by_cases ended : upstream.bytes = []
    · rw [copyResponse_ended arrives turn _ ended,ended,List.append_nil]
    · obtain ⟨read,rest,reads,whole,_,some,_⟩ := readSome_filled (arrives turn) ended (by decide : 0 < BUFFER)
      have shorter : rest.bytes.length < length := by
        rw [← left,whole,List.length_append]
        omega
      have later := ih rest.bytes.length shorter (turn + 1) rest (written ++ read) rfl
      rw [copyResponse_reads _ reads some,whole,← List.append_assoc]
      exact later

/-- How many bytes of body the child is sent. -/
def bodySent (head : Head) (body : Option (List UInt8)) (reader : Source) : ℕ :=
  match body with
  | some bytes => bytes.length
  | none => min head.bodyBytes reader.bytes.length

/-- The child accepts the connection and takes the head and the body, and the
    caller's side does not fail while the body is read. -/
def Accepts (head : Head) (child : Child) (body : Option (List UInt8)) (reader : Source) : Prop :=
  child.peer.refuses = none ∧
  (⟨[],child.peer.takes⟩ : Sink).Takes
    ((Utf8.encode (head.rewrite child.endpoint)).length + bodySent head body reader) ∧
  (body = none → reader.bytes.length < head.bodyBytes → reader.failure = none)

theorem sendBody_spec (arrives : ℕ → ℕ) (head : Head) (body : Option (List UInt8)) (reader : Source) (upstream : Sink) :
    (sendBody arrives head body reader upstream).2 = none ↔ upstream.Takes (bodySent head body reader) ∧
      (body = none → reader.bytes.length < head.bodyBytes → reader.failure = none) := by
  cases body with
  | some bytes => simpa [sendBody,bodySent] using writeAll_takes
  | none => simpa [sendBody,bodySent,forwardBody] using (forwardFrom_spec arrives 0 head.bodyBytes reader upstream).1

/-- A relay reaches the response exactly where the child accepts the request,
    and then the caller is sent everything the child answers. -/
theorem run_spec (arrives answers : ℕ → ℕ) (head : Head) (child : Child) (body : Option (List UInt8)) (reader : Source) :
    ((run arrives answers head child body reader).failure = none ↔ Accepts head child body reader) ∧
    ((run arrives answers head child body reader).failure = none →
      (run arrives answers head child body reader).downstream = child.peer.answers.bytes) ∧
    ((run arrives answers head child body reader).failure ≠ none →
      (run arrives answers head child body reader).downstream = []) := by
  unfold run Accepts
  cases refuses : child.peer.refuses with
  | some error => simp
  | none =>
    dsimp only
    set request := Utf8.encode (head.rewrite child.endpoint)
    by_cases takes : (⟨[],child.peer.takes⟩ : Sink).Takes request.length
    · have written := writeAll_takes.mpr takes
      have body_fails := sendBody_spec arrives head body reader ((⟨[],child.peer.takes⟩ : Sink).writeAll request).1
      rw [takes_after takes] at body_fails
      rcases result : (⟨[],child.peer.takes⟩ : Sink).writeAll request with ⟨sink,error⟩
      rw [result] at written body_fails
      obtain rfl : error = none := written
      dsimp only at body_fails ⊢
      rcases sent : sendBody arrives head body reader sink with ⟨after,failure⟩
      rw [sent] at body_fails
      cases failure with
      | none => simpa [copyResponse_all] using body_fails.mp rfl
      | some failure =>
        have refused := body_fails.not.mp (by simp)
        simpa using refused
    · have refused : ¬ (⟨[],child.peer.takes⟩ : Sink).Takes (request.length + bodySent head body reader) :=
        fun all => takes (all.mono (Nat.le_add_right _ _))
      have error := writeAll_takes.not.mpr takes
      rcases result : (⟨[],child.peer.takes⟩ : Sink).writeAll request with ⟨sink,problem⟩
      rw [result] at error
      cases problem with
      | none => exact absurd rfl error
      | some problem => simp [refused]

end Maestro.Proxy
