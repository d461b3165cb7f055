import Maestro.Framing
import Maestro.Reply

/-!
# Answering one connection

Which answer a request has earned: a reply of the router's own, or the response
of a child. How a child is come by is a parameter, and so is the parser of JSON;
the caller is one that stays connected, so what is written to it arrives.
-/
namespace Maestro.Proxy
open Socket

/-! ## The request body, and the model it names -/

/-- A body that stopped arriving. -/
def bodyEnded (declared : ℕ) (error : IoError) : Refusal :=
  let cause := if timedOut error then Cause.RequestTimeout else .BodyIncomplete
  ⟨cause,s!"a request body declaring {declared} bytes ended early: {error.text}"⟩

def modelMissing : Refusal :=
  ⟨.ModelMissing,"the generic endpoint routes on the 'model' field of the request body, and this request carries " ++
    "none; name a model there, or address a model directly at /models/<model>/<path>"⟩

/-- Reads exactly the declared body, and says which model it names. -/
def readBody (fromSlice : List UInt8 → Except String Json) (reader : Source) (contentLength : ℕ) :
    Except Refusal (List UInt8 × String × Source) :=
  match reader.readExact contentLength with
  | .error error => .error (bodyEnded contentLength error)
  | .ok (bytes,rest) =>
    match fromSlice bytes with
    | .error error => .error ⟨.BodyNotJson,s!"a request body that is not JSON: {error}"⟩
    | .ok parsed =>
      match (parsed.get "model").bind Json.asStr with
      | none => .error modelMissing
      | some model => .ok (bytes,model,rest)

/-! ## The answer -/

/-- What every connection thread shares. `child` is the child serving an entry,
    or the failure to come by one, or none where that panics. -/
structure Shared where
  catalog : Catalog
  loaded : List String
  memory : List (String × Option ℕ)
  child : Entry → Option (Except Failure Child)

/-- What the catalog carries. -/
def Shared.known (self : Shared) : String := ", ".intercalate (self.catalog.entries.map Entry.id)

/-- One thing the caller is sent. -/
inductive Sent
  | Continue
  | Reply (reply : Reply)
  | Response (bytes : List UInt8)
deriving DecidableEq, Repr

/-- How the handling of a connection ends. -/
inductive Ending
  | Done
  | Failed (error : IoError)
  | Panicked
deriving DecidableEq, Repr

structure Exchange where
  sent : List Sent
  ending : Ending
deriving DecidableEq, Repr

/-- A request that has earned a child: what was said to the caller so far, the
    entry, the body where it was read, and the reader behind it. -/
structure Routed where
  interim : List Sent
  entry : Entry
  buffered : Option (List UInt8)
  reader : Source

/-- The entry a name stands for, or the refusal that lists what there is. -/
def Shared.find (self : Shared) (wanted : String) : Except Refusal Entry :=
  match self.catalog.entry wanted with
  | some entry => .ok entry
  | none => .error ⟨.ModelNotFound,s!"no model called '{wanted}'; this catalog carries: {self.known}"⟩

def methodNotAllowed (request : Head) : Refusal :=
  ⟨.MethodNotAllowed request.endpoint.allowedText,
    s!"{String.ofList request.method} is not a method this endpoint answers; it accepts {request.endpoint.allowedText}"⟩

/-- Everything up to the call for a child: the router's own answer, or the
    request that has earned one. -/
def route (fromSlice : List UInt8 → Except String Json) (shared : Shared) (request : Head) (reader : Source) :
    Except (List Sent) Routed :=
  if request.method = "OPTIONS".toList then .error [.Reply (preflight request.endpoint)]
  else if !request.endpoint.allows request.method then .error [.Reply (refuse (methodNotAllowed request))]
  else match framing request with
    | .error refusal => .error [.Reply (refuse refusal)]
    | .ok () =>
      let headOnly := request.method = "HEAD".toList
      match request.endpoint with
      | .Listing => .error [.Reply (listing shared.catalog headOnly)]
      | .Catalogue => .error [.Reply (catalogue shared.catalog shared.loaded shared.memory headOnly)]
      | .Properties => .error [.Reply (properties headOnly)]
      | .Dedicated id _ =>
        match shared.find (String.ofList id) with
        | .error refusal => .error [.Reply (refuse refusal)]
        | .ok entry => .ok ⟨[],entry,none,reader⟩
      | .Generic _ =>
        match declaredBody request.length with
        | .error refusal => .error [.Reply (refuse refusal)]
        | .ok declared =>
          let interim := if request.expectsContinue then [.Continue] else []
          match readBody fromSlice reader declared with
          | .error refusal => .error (interim ++ [.Reply (refuse refusal)])
          | .ok (bytes,model,rest) =>
            match shared.find model with
            | .error refusal => .error (interim ++ [.Reply (refuse refusal)])
            | .ok entry => .ok ⟨interim,entry,some bytes,rest⟩

/-- A caller that holds its body back is told to send it, where it is still to
    be read. -/
def proceed (request : Head) (routed : Routed) : List Sent :=
  if routed.buffered.isNone && request.expectsContinue && 0 < request.bodyBytes then [.Continue] else []

/-- The call for a child and the relay to it. -/
def serve (arrives answers : ℕ → ℕ) (shared : Shared) (request : Head) (routed : Routed) : Exchange :=
  match shared.child routed.entry with
  | none => ⟨routed.interim,.Panicked⟩
  | some (.error failure) => ⟨routed.interim ++ [.Reply (refuse (Refusal.from failure))],.Done⟩
  | some (.ok child) =>
    let relayed := run arrives answers request child routed.buffered routed.reader
    ⟨routed.interim ++ proceed request routed ++ [.Response relayed.downstream],match relayed.failure with
      | none => .Done
      | some error => .Failed error⟩

/-- Answers one connection. -/
def answer (fromSlice : List UInt8 → Except String Json) (arrives answers : ℕ → ℕ) (shared : Shared) (stream : Source) :
    Exchange :=
  match read stream with
  | .error refusal => ⟨[.Reply (refuse refusal)],.Done⟩
  | .ok (lines,reader) =>
    match parse lines with
    | .error refusal => ⟨[.Reply (refuse refusal)],.Done⟩
    | .ok request =>
      match route fromSlice shared request reader with
      | .error sent => ⟨sent,.Done⟩
      | .ok routed => serve arrives answers shared request routed

/-! ## The body -/

/-- A body is read where it arrives, is JSON and names its model. -/
theorem readBody_ok_iff {fromSlice : List UInt8 → Except String Json} {reader rest : Source} {declared : ℕ}
    {bytes : List UInt8} {model : String} : readBody fromSlice reader declared = .ok (bytes,model,rest) ↔
      declared ≤ reader.bytes.length ∧ bytes = reader.bytes.take declared ∧
      rest = ⟨reader.bytes.drop declared,reader.failure⟩ ∧
      ∃ parsed, fromSlice bytes = .ok parsed ∧ (parsed.get "model").bind Json.asStr = some model := by
  unfold readBody Source.readExact
  by_cases arrived : declared ≤ reader.bytes.length
  · rw [if_pos arrived]
    constructor
    · intro is
      cases parses : fromSlice (reader.bytes.take declared) with
      | error error => simp [parses] at is
      | ok parsed =>
        cases named : (parsed.get "model").bind Json.asStr with
        | none => simp [parses,named] at is
        | some found =>
          simp only [parses,named] at is
          cases is
          exact ⟨arrived,rfl,rfl,parsed,parses,named⟩
    · rintro ⟨_,rfl,rfl,parsed,parses,named⟩
      simp only [parses,named]
  · rw [if_neg arrived]
    exact ⟨fun is => (by cases is),fun is => absurd is.1 arrived⟩

/-! ## What the caller receives -/

def Sent.authored : Sent → Option Proxy.Reply
  | .Reply reply => some reply
  | _ => none

def Sent.response : Sent → List UInt8
  | .Response bytes => bytes
  | _ => []

/-- The replies of the router's own among what was sent. -/
def Exchange.replies (self : Exchange) : List Reply := self.sent.filterMap Sent.authored

/-- The part of the child's response among what was sent. -/
def Exchange.response (self : Exchange) : List UInt8 := self.sent.flatMap Sent.response

/-- The caller receives some of the child's response or one reply with a status,
    and the exchange ends by closing only after some of the response. -/
structure Answered (exchange : Exchange) : Prop where
  something : exchange.response ≠ [] ∨ ∃ reply, exchange.replies = [reply]
  closing : exchange.ending ≠ .Done → exchange.response ≠ []

/-- What is answered without a child is one reply, after an interim line at most. -/
theorem route_error {fromSlice : List UInt8 → Except String Json} {shared : Shared} {request : Head} {reader : Source}
    {sent : List Sent} (own : route fromSlice shared request reader = .error sent) :
    ∃ reply, sent.filterMap Sent.authored = [reply] := by
  unfold route at own
  dsimp only at own
  repeat' split at own
  all_goals cases own
  all_goals exact ⟨_,rfl⟩

theorem route_error_response {fromSlice : List UInt8 → Except String Json} {shared : Shared} {request : Head} {reader : Source}
    {sent : List Sent} (own : route fromSlice shared request reader = .error sent) :
    sent.flatMap Sent.response = [] := by
  unfold route at own
  dsimp only at own
  repeat' split at own
  all_goals cases own
  all_goals rfl

theorem route_ok {fromSlice : List UInt8 → Except String Json} {shared : Shared} {request : Head} {reader : Source}
    {routed : Routed} (earned : route fromSlice shared request reader = .ok routed) :
    routed.interim.filterMap Sent.authored = [] ∧ routed.interim.flatMap Sent.response = [] := by
  unfold route at earned
  dsimp only at earned
  repeat' split at earned
  all_goals cases earned
  all_goals exact ⟨rfl,rfl⟩

theorem route_reader {fromSlice : List UInt8 → Except String Json} {shared : Shared} {request : Head} {reader : Source}
    {routed : Routed} (earned : route fromSlice shared request reader = .ok routed) (unread : routed.buffered = none) :
    routed.reader = reader := by
  unfold route at earned
  dsimp only at earned
  repeat' split at earned
  all_goals cases earned
  all_goals first | rfl | cases unread

theorem answered_of_reply {sent : List Sent} (reply : Reply) (one : sent.filterMap Sent.authored = [reply]) :
    Answered ⟨sent,.Done⟩ := ⟨.inr ⟨reply,one⟩,fun closes => absurd rfl closes⟩

/-- Whether the child takes the whole of what it is sent for a request. -/
def TakesAll (request : Head) (routed : Routed) (child : Child) : Prop :=
  (⟨[],child.peer.takes⟩ : Sink).Takes
    ((Utf8.encode (request.rewrite child.endpoint)).length + bodySent request routed.buffered routed.reader)

/-- What the caller is sent by a relay is the child's response alone. -/
theorem serve_child (arrives answers : ℕ → ℕ) {shared : Shared} {request : Head} {routed : Routed} {child : Child}
    (is : shared.child routed.entry = some (.ok child))
    (quiet : routed.interim.filterMap Sent.authored = [] ∧ routed.interim.flatMap Sent.response = []) :
    let relayed := run arrives answers request child routed.buffered routed.reader
    (serve arrives answers shared request routed).response = relayed.downstream ∧
      (serve arrives answers shared request routed).replies = [] ∧
      ((serve arrives answers shared request routed).ending = .Done ↔ relayed.failure = none) := by
  intro relayed
  have told : (proceed request routed).filterMap Sent.authored = [] ∧ (proceed request routed).flatMap Sent.response = [] := by
    unfold proceed
    split_ifs <;> exact ⟨rfl,rfl⟩
  rw [serve,is]
  refine ⟨?_,?_,?_⟩
  · simp only [Exchange.response,List.flatMap_append,quiet.2,told.2,List.nil_append]
    exact List.append_nil _
  · simp only [Exchange.replies,List.filterMap_append,quiet.1,told.1,List.nil_append]
    rfl
  · dsimp only
    cases (run arrives answers request child routed.buffered routed.reader).failure <;> simp

/-- A request that has earned a child is answered exactly where there is a
    refusal to write, or the child takes the request and answers something. -/
theorem serve_answered_iff (arrives answers : ℕ → ℕ) {shared : Shared} {request : Head} {routed : Routed}
    (quiet : routed.interim.filterMap Sent.authored = [] ∧ routed.interim.flatMap Sent.response = [])
    (stays : routed.buffered = none → routed.reader.failure = none) :
    Answered (serve arrives answers shared request routed) ↔
      (∃ failure, shared.child routed.entry = some (.error failure)) ∨
      ∃ child, shared.child routed.entry = some (.ok child) ∧ child.peer.refuses = none ∧
        TakesAll request routed child ∧ child.peer.answers.bytes ≠ [] := by
  rcases is : shared.child routed.entry with _ | ⟨failure | child⟩
  · -- The call panics: nothing is written.
    rw [serve,is]
    constructor
    · rintro ⟨response | ⟨reply,one⟩,_⟩
      · exact absurd quiet.2 response
      · rw [Exchange.replies,quiet.1] at one
        cases one
    · rintro (⟨failure,some⟩ | ⟨child,some,_⟩) <;> cases some
  · rw [serve,is]
    refine ⟨fun _ => .inl ⟨failure,rfl⟩,fun _ => answered_of_reply (refuse (Refusal.from failure)) ?_⟩
    rw [List.filterMap_append,quiet.1]
    rfl
  · obtain ⟨response,replies,done⟩ := serve_child arrives answers is quiet
    obtain ⟨accepts,completes,stops⟩ := run_spec arrives answers request child routed.buffered routed.reader
    set relayed := run arrives answers request child routed.buffered routed.reader
    have takes : relayed.failure = none ↔ child.peer.refuses = none ∧ TakesAll request routed child := by
      rw [accepts]
      exact ⟨fun all => ⟨all.1,all.2.1⟩,fun all => ⟨all.1,all.2,fun unread _ => stays unread⟩⟩
    constructor
    · rintro ⟨some | ⟨reply,one⟩,_⟩
      · rw [response] at some
        have complete : relayed.failure = none := by
          by_contra fails
          exact some (stops fails)
        rw [completes complete] at some
        exact .inr ⟨child,rfl,(takes.mp complete).1,(takes.mp complete).2,some⟩
      · rw [replies] at one
        cases one
    · rintro (⟨failure,some⟩ | ⟨other,some,connects,all,answered⟩)
      · cases some
      · obtain rfl : child = other := by simpa using some
        have complete := takes.mpr ⟨connects,all⟩
        rw [← completes complete,← response] at answered
        exact ⟨.inl answered,fun closes => absurd (done.mpr complete) closes⟩

/-- A head that was read, from a caller that stays: it is answered exactly where
    the router answers it without a child, or the call for the child fails with
    a refusal to write, or the child accepts the connection, takes the whole
    request and answers at least one byte. -/
theorem answered_iff (fromSlice : List UInt8 → Except String Json) (arrives answers : ℕ → ℕ) (shared : Shared)
    {stream reader : Source} {lines : List (List Char)} (reads : read stream = .ok (lines,reader))
    (stays : stream.failure = none) :
    Answered (answer fromSlice arrives answers shared stream) ↔
      ∀ request routed, parse lines = .ok request → route fromSlice shared request reader = .ok routed →
        (∃ failure, shared.child routed.entry = some (.error failure)) ∨
        ∃ child, shared.child routed.entry = some (.ok child) ∧ child.peer.refuses = none ∧
          TakesAll request routed child ∧ child.peer.answers.bytes ≠ [] := by
  have quiet : reader.failure = none := by
    obtain ⟨_,_,_,_,ended⟩ := readFrom_ok (Nat.zero_le _) reads
    exact ended.failure.trans stays
  rw [answer,reads]
  dsimp only
  cases parses : parse lines with
  | error refusal =>
    constructor
    · intro _ request routed is
      cases is
    · intro _
      exact answered_of_reply (refuse refusal) rfl
  | ok request =>
    dsimp only
    cases earned : route fromSlice shared request reader with
    | error sent =>
      obtain ⟨reply,one⟩ := route_error earned
      refine ⟨fun _ other routed is goes => ?_,fun _ => answered_of_reply reply one⟩
      cases is
      rw [earned] at goes
      cases goes
    | ok routed =>
      dsimp only
      rw [serve_answered_iff arrives answers (route_ok earned) (fun unread => (route_reader earned unread) ▸ quiet)]
      constructor
      · intro answered other routed' is goes
        cases is
        rw [earned] at goes
        cases goes
        exact answered
      · intro all
        exact all request routed rfl earned

/-! ## One request, to a child that answers and to one that does not -/

/-- A catalog of one model. -/
def oneModel : Catalog where
  entries := [⟨"m","m.gguf",none,none,4096,.OnDemand,100,none,none,30,none,[]⟩]
  distinct := by decide

/-- A router whose model is served by a child with this socket. -/
def servedBy (peer : Peer) : Shared where
  catalog := oneModel
  loaded := ["m"]
  memory := [("m",none)]
  child _ := some (.ok ⟨⟨"127.0.0.1:41234".toList,loopback_plain⟩,peer⟩)

/-- No body is parsed for a path that names its model. -/
def noJson (_ : List UInt8) : Except String Json := .error "EOF while parsing a value at line 1 column 0"

/-- A request for the health of the model, with no body. -/
def healthRequest : Source := ⟨Utf8.encode "GET /models/m/health HTTP/1.1\r\n\r\n".toList,none⟩

theorem answering_child_heard :
    Answered (answer noJson id id (servedBy ⟨none,none,⟨Utf8.encode "HTTP/1.1 200 OK\r\n".toList,none⟩⟩) healthRequest) := by
  have reads : read healthRequest = .ok (["GET /models/m/health HTTP/1.1".toList],⟨[],none⟩) := by decide +kernel
  refine (answered_iff noJson id id _ reads rfl).mpr (fun request routed _ _ => .inr ⟨_,rfl,rfl,?_,by decide⟩)
  intro room error is
  cases is

/-- A child that refuses the connection leaves the caller with nothing. -/
theorem refusing_child_closes :
    (∃ head, read healthRequest = .ok head) ∧
      ¬ Answered (answer noJson id id
        (servedBy ⟨some ⟨.Other,"Connection refused (os error 111)"⟩,none,⟨[],none⟩⟩) healthRequest) := by
  have closes : answer noJson id id
      (servedBy ⟨some ⟨.Other,"Connection refused (os error 111)"⟩,none,⟨[],none⟩⟩) healthRequest =
        ⟨[.Response []],.Failed ⟨.Other,"Connection refused (os error 111)"⟩⟩ := by decide +kernel
  refine ⟨⟨(["GET /models/m/health HTTP/1.1".toList],⟨[],none⟩),by decide +kernel⟩,fun answered => ?_⟩
  rw [closes] at answered
  exact answered.closing (by decide) rfl

end Maestro.Proxy
