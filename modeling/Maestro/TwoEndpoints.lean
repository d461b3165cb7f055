import Maestro.Answer

/-!
# One request, to either endpoint

A request to `/v1/...` that names its model in the body, and the same request to
`/models/<model>/v1/...`. The first is buffered before the child is called for;
the second is copied to it as it arrives.
-/
namespace Maestro.Proxy
open Socket

/-- The request on a stream earns a child. -/
def Asks (fromSlice : List UInt8 → Except String Json) (shared : Shared) (stream : Source) (request : Head) (routed : Routed) :
    Prop :=
  ∃ lines reader, read stream = .ok (lines, reader) ∧ parse lines = .ok request ∧
    route fromSlice shared request reader = .ok routed

/-- What two requests come to: the same entry, asked for the same whatever child
    serves it and in whatever sizes the bodies arrive; or a model that neither
    finds. -/
def AskedAlike (fromSlice : List UInt8 → Except String Json) (shared : Shared) (first second : Source) : Prop :=
  (∃ generic dedicated buffered streamed, Asks fromSlice shared first generic buffered ∧
    Asks fromSlice shared second dedicated streamed ∧ buffered.entry = streamed.entry ∧
    ∀ arrives arrives' answers answers' child,
      (run arrives answers generic child buffered.buffered buffered.reader).upstream =
        (run arrives' answers' dedicated child streamed.buffered streamed.reader).upstream) ∨
  ∃ message interim, ∀ arrives answers,
    answer fromSlice arrives answers shared first = ⟨interim ++ [.Reply (refuse ⟨.ModelNotFound,message⟩)],.Done⟩ ∧
    answer fromSlice arrives answers shared second = ⟨[.Reply (refuse ⟨.ModelNotFound,message⟩)],.Done⟩

section Parsing
variable {line : List Char} {headers : List (List Char)} {method path : List Char} {others : List (List Char)}
  {endpoint : Endpoint}

theorem parse_line (words : Text.words line = method :: path :: others) (of : Endpoint.of path = .ok endpoint) :
    parse (line :: headers) = .ok (headers.foldl Head.readHeader ⟨method,endpoint,[],.Absent,false,false⟩) := by
  rw [parse,words]
  simp only [of]

/-- The header lines say nothing about the endpoint. -/
theorem foldl_endpoint (head : Head) : headers.foldl Head.readHeader { head with endpoint := endpoint } =
    { headers.foldl Head.readHeader head with endpoint := endpoint } := by
  rw [foldl_readHeader,foldl_readHeader]

end Parsing

section Routing
variable {fromSlice : List UInt8 → Except String Json} {shared : Shared} {request : Head} {reader : Source}

theorem route_options (is : request.method = "OPTIONS".toList) :
    route fromSlice shared request reader = .error [.Reply (preflight request.endpoint)] := if_pos is

section Accepted
variable (other : request.method ≠ "OPTIONS".toList) (allowed : request.endpoint.allows request.method = true)
include other allowed

theorem route_chunked (chunked : request.chunked = true) :
    ∃ message, route fromSlice shared request reader = .error [.Reply (refuse ⟨.ChunkedBody,message⟩)] := by
  obtain ⟨message,refused⟩ : ∃ message, framing request = .error ⟨.ChunkedBody,message⟩ :=
    ⟨_,by rw [framing,if_pos chunked]⟩
  refine ⟨message,?_⟩
  rw [route,if_neg other]
  simp only [allowed,refused,Bool.not_true,Bool.false_eq_true,if_false]

variable (accepted : framing request = .ok ())
include accepted

/-- The dedicated endpoint finds its model by the path. -/
theorem route_dedicated {id suffix : List Char} (dedicated : request.endpoint = .Dedicated id suffix) :
    route fromSlice shared request reader = match shared.find (String.ofList id) with
      | .error refusal => .error [.Reply (refuse refusal)]
      | .ok entry => .ok ⟨[],entry,none,reader⟩ := by
  rw [dedicated] at allowed
  rw [route,if_neg other]
  rcases found : shared.find (String.ofList id) with refusal | entry
  · simp only [dedicated,allowed,accepted,found,Bool.not_true,Bool.false_eq_true,if_false]
  · simp only [dedicated,allowed,accepted,found,Bool.not_true,Bool.false_eq_true,if_false]

/-- The generic endpoint finds its model in a body that arrives. -/
theorem route_generic {suffix : List Char} (generic : request.endpoint = .Generic suffix) {declared : ℕ}
    (given : request.length = .Given declared) (small : declared ≤ MAX_BODY_BYTES) (arrived : declared ≤ reader.bytes.length)
    {parsed : Json} (parses : fromSlice (reader.bytes.take declared) = .ok parsed) {model : String}
    (named : (parsed.get "model").bind Json.asStr = some model) :
    ∃ interim, route fromSlice shared request reader = match shared.find model with
      | .error refusal => .error (interim ++ [.Reply (refuse refusal)])
      | .ok entry => .ok ⟨interim,entry,some (reader.bytes.take declared),⟨reader.bytes.drop declared,reader.failure⟩⟩ := by
  have body : readBody fromSlice reader declared =
      .ok (reader.bytes.take declared,model,⟨reader.bytes.drop declared,reader.failure⟩) :=
    readBody_ok_iff.mpr ⟨arrived,rfl,rfl,parsed,parses,named⟩
  have length : declaredBody request.length = .ok declared := declaredBody_ok_iff.mpr ⟨given,small⟩
  rw [generic] at allowed
  refine ⟨if request.expectsContinue then [.Continue] else [],?_⟩
  rw [route,if_neg other]
  rcases found : shared.find model with refusal | entry
  · simp only [generic,allowed,accepted,length,body,found,Bool.not_true,Bool.false_eq_true,if_false]
  · simp only [generic,allowed,accepted,length,body,found,Bool.not_true,Bool.false_eq_true,if_false]

end Accepted

/-- A body sent at once and one copied as it arrives are the same upstream. -/
theorem run_alike {generic dedicated : Head} (rewritten : ∀ upstream, generic.rewrite upstream = dedicated.rewrite upstream)
    {declared : ℕ} (given : dedicated.bodyBytes = declared) (arrived : declared ≤ reader.bytes.length) (rest : Source)
    (arrives arrives' answers answers' : ℕ → ℕ) (child : Child) :
    (run arrives answers generic child (some (reader.bytes.take declared)) rest).upstream =
      (run arrives' answers' dedicated child none reader).upstream := by
  subst given
  unfold run
  cases child.peer.refuses with
  | some error => rfl
  | none =>
    dsimp only
    rw [rewritten]
    rcases (⟨[],child.peer.takes⟩ : Sink).writeAll (Utf8.encode (dedicated.rewrite child.endpoint)) with ⟨sink,_ | error⟩
    · have same : sendBody arrives' dedicated none reader sink = sink.writeAll (reader.bytes.take dedicated.bodyBytes) :=
        forwardFrom_writes arrives' 0 _ reader sink arrived
      dsimp only
      rw [same]
      rcases sent : sink.writeAll (reader.bytes.take dedicated.bodyBytes) with ⟨after,_ | error⟩ <;> simp [sendBody,sent]
    · rfl

end Routing

theorem answer_of_route {fromSlice : List UInt8 → Except String Json} {shared : Shared} {stream reader : Source}
    {lines : List (List Char)} {request : Head} {sent : List Sent} (reads : read stream = .ok (lines,reader))
    (parses : parse lines = .ok request) (own : route fromSlice shared request reader = .error sent)
    (arrives answers : ℕ → ℕ) : answer fromSlice arrives answers shared stream = ⟨sent,.Done⟩ := by
  rw [answer,reads]
  simp only [parses,own]

/-- Two requests with the same header lines and the same body, one to `p` on the
    generic endpoint and one to `p` under the name of the model in the body: they
    are asked alike, unless both are answered as a preflight, or both refused for
    announcing a chunked body. -/
theorem asked_alike (fromSlice : List UInt8 → Except String Json) (shared : Shared) {first second reader : Source}
    {line line' : List Char} {headers : List (List Char)} (reads : read first = .ok (line :: headers,reader))
    (reads' : read second = .ok (line' :: headers,reader)) {method p model : List Char} {others others' : List (List Char)}
    (words : Text.words line = method :: p :: others)
    (words' : Text.words line' = method :: (DEDICATED ++ (model ++ p)) :: others')
    (of : Endpoint.of p = .ok (.Generic p)) (named : model ≠ []) (plain : '/' ∉ model)
    (allowed : (Endpoint.Generic p).allows method = true) {value : List Char} {declared : ℕ}
    (last : (lengthsOf (headers.filterMap headerOf)).getLast? = some value) (given : parseLength value = some declared)
    (small : declared ≤ MAX_BODY_BYTES) (arrived : declared ≤ reader.bytes.length) {parsed : Json}
    (body : fromSlice (reader.bytes.take declared) = .ok parsed)
    (names : (parsed.get "model").bind Json.asStr = some (String.ofList model)) :
    (method = "OPTIONS".toList → ∃ reply, ∀ arrives answers,
      answer fromSlice arrives answers shared first = ⟨[.Reply reply],.Done⟩ ∧
      answer fromSlice arrives answers shared second = ⟨[.Reply reply],.Done⟩) ∧
    (method ≠ "OPTIONS".toList → (headers.filterMap headerOf).any announcesChunked = true → ∃ message message',
      ∀ arrives answers,
        answer fromSlice arrives answers shared first = ⟨[.Reply (refuse ⟨.ChunkedBody,message⟩)],.Done⟩ ∧
        answer fromSlice arrives answers shared second = ⟨[.Reply (refuse ⟨.ChunkedBody,message'⟩)],.Done⟩) ∧
    (method ≠ "OPTIONS".toList → (headers.filterMap headerOf).any announcesChunked = false →
      AskedAlike fromSlice shared first second) := by
  obtain ⟨tail,slashed,more⟩ : ∃ tail, p = '/' :: tail ∧ tail ≠ [] := by
    obtain ⟨more,rfl⟩ := (of_generic of).2
    exact ⟨['v','1','/'] ++ more,rfl,by simp⟩
  have dedicated_of : Endpoint.of (DEDICATED ++ (model ++ p)) = .ok (.Dedicated model p) := by
    rw [slashed]
    exact of_dedicated named plain more
  have parses : parse (line :: headers) = _ := parse_line words of
  have parses' : parse (line' :: headers) = _ := parse_line words' dedicated_of
  set generic : Head := headers.foldl Head.readHeader ⟨method,.Generic p,[],.Absent,false,false⟩ with genericIs
  rw [foldl_endpoint ⟨method,.Generic p,[],.Absent,false,false⟩,← genericIs] at parses'
  -- The two heads differ in the endpoint alone.
  set dedicated : Head := { generic with endpoint := .Dedicated model p }
  have methodIs : generic.method = method := by rw [genericIs,foldl_readHeader]
  have endpointIs : generic.endpoint = .Generic p := by rw [genericIs,foldl_readHeader]
  have chunkedIs : generic.chunked = (headers.filterMap headerOf).any announcesChunked := by
    rw [genericIs,foldl_readHeader,Bool.false_or]
  have lengthIs : generic.length = .Given declared := by
    rw [genericIs,foldl_readHeader,last]
    simp [lengthOf,given]
  have answers_to : generic.endpoint.allows generic.method = true := by rw [endpointIs,methodIs,allowed]
  have answers_to' : dedicated.endpoint.allows dedicated.method = true := by
    rw [← answers_to,endpointIs]
    rfl
  have preflights : preflight dedicated.endpoint = preflight generic.endpoint := by
    rw [endpointIs]
    rfl
  refine ⟨fun options => ?_,fun other chunked => ?_,fun other whole => ?_⟩
  · refine ⟨preflight generic.endpoint,fun arrives answers => ⟨?_,?_⟩⟩
    · exact answer_of_route reads parses (route_options (methodIs.trans options)) arrives answers
    · rw [← preflights]
      exact answer_of_route reads' parses' (route_options (methodIs.trans options)) arrives answers
  · obtain ⟨message,refused⟩ : ∃ message, route fromSlice shared generic reader =
        .error [.Reply (refuse ⟨.ChunkedBody,message⟩)] :=
      route_chunked (methodIs ▸ other) answers_to (chunkedIs.trans chunked)
    obtain ⟨message',refused'⟩ : ∃ message, route fromSlice shared dedicated reader =
        .error [.Reply (refuse ⟨.ChunkedBody,message⟩)] :=
      route_chunked (methodIs ▸ other) answers_to' (chunkedIs.trans chunked)
    exact ⟨message,message',fun arrives answers => ⟨answer_of_route reads parses refused arrives answers,
      answer_of_route reads' parses' refused' arrives answers⟩⟩
  · have formed (kept : List Char) : generic.length ≠ .Malformed kept := by simp [lengthIs]
    have accepted : framing generic = .ok () := framing_ok_iff.mpr ⟨chunkedIs.trans whole,formed⟩
    have accepted' : framing dedicated = .ok () := framing_ok_iff.mpr ⟨chunkedIs.trans whole,formed⟩
    obtain ⟨interim,routes⟩ : ∃ interim, route fromSlice shared generic reader = match shared.find (String.ofList model) with
        | .error refusal => .error (interim ++ [.Reply (refuse refusal)])
        | .ok entry => .ok ⟨interim,entry,some (reader.bytes.take declared),⟨reader.bytes.drop declared,reader.failure⟩⟩ :=
      route_generic (methodIs ▸ other) answers_to accepted endpointIs lengthIs small arrived body names
    have routes' : route fromSlice shared dedicated reader = _ := route_dedicated (methodIs ▸ other) answers_to' accepted' rfl
    cases found : shared.find (String.ofList model) with
    | error refusal =>
      rw [found] at routes routes'
      have missing : ∃ message, refusal = ⟨.ModelNotFound,message⟩ := by
        rw [Shared.find] at found
        split at found <;> cases found
        exact ⟨_,rfl⟩
      obtain ⟨message,rfl⟩ := missing
      exact .inr ⟨message,interim,fun arrives answers => ⟨answer_of_route reads parses routes arrives answers,
        answer_of_route reads' parses' routes' arrives answers⟩⟩
    | ok entry =>
      rw [found] at routes routes'
      refine .inl ⟨generic,dedicated,_,_,⟨_,_,reads,parses,routes⟩,⟨_,_,reads',parses',routes'⟩,rfl,
        fun arrives arrives' answers answers' child => ?_⟩
      refine run_alike (fun upstream => ?_) ?_ arrived _ arrives arrives' answers answers' child
      · rw [Head.rewrite,endpointIs]
        rfl
      · rw [Head.bodyBytes,lengthIs]

/-! ## One request to each -/

/-- A body that names the one model of the catalog. -/
def namesM : List UInt8 := Utf8.encode "\x7b\"model\":\"m\"\x7d".toList

/-- JSON, as far as that body goes. -/
def parseM (bytes : List UInt8) : Except String Json :=
  if bytes = namesM then .ok (.obj [("model",.str "m")]) else .error "expected value at line 1 column 1"

/-- A request with that body. -/
def requestM (line : String) : Source :=
  ⟨Utf8.encode (line ++ "\r\nContent-Length: 13\r\n\r\n").toList ++ namesM,none⟩

/-- The router of the one model. -/
def routerM : Shared := servedBy ⟨none,none,⟨[],none⟩⟩

theorem requestM_generic : read (requestM "POST /v1/echo HTTP/1.1") =
    .ok (["POST /v1/echo HTTP/1.1".toList,"Content-Length: 13".toList],⟨namesM,none⟩) := by decide +kernel

theorem requestM_dedicated : read (requestM "POST /models/m/v1/echo HTTP/1.1") =
    .ok (["POST /models/m/v1/echo HTTP/1.1".toList,"Content-Length: 13".toList],⟨namesM,none⟩) := by decide +kernel

/-- Posted to either endpoint, the body reaches the model it names. -/
theorem posted_alike : AskedAlike parseM routerM (requestM "POST /v1/echo HTTP/1.1")
    (requestM "POST /models/m/v1/echo HTTP/1.1") := by
  have words : Text.words "POST /v1/echo HTTP/1.1".toList = "POST".toList :: "/v1/echo".toList :: ["HTTP/1.1".toList] := by
    decide
  have words' : Text.words "POST /models/m/v1/echo HTTP/1.1".toList =
      "POST".toList :: (DEDICATED ++ ("m".toList ++ "/v1/echo".toList)) :: ["HTTP/1.1".toList] := by decide
  have last : (lengthsOf (["Content-Length: 13".toList].filterMap headerOf)).getLast? = some "13".toList := by decide
  have body : parseM (namesM.take 13) = .ok (.obj [("model",.str "m")]) := by
    rw [parseM,if_pos (by decide +kernel)]
  have alike := asked_alike parseM routerM requestM_generic requestM_dedicated words words' (by decide) (by decide) (by decide)
    (by decide) last (by decide : parseLength "13".toList = some 13) (by decide) (by decide +kernel) body rfl
  exact alike.2.2 (by decide) (by decide)

/-- Asked what either endpoint accepts, the router answers both itself. -/
theorem options_not_asked : (Endpoint.Generic "/v1/echo".toList).allows "OPTIONS".toList = true ∧
    (∃ head, read (requestM "OPTIONS /v1/echo HTTP/1.1") = .ok head) ∧
    (∃ head, read (requestM "OPTIONS /models/m/v1/echo HTTP/1.1") = .ok head) ∧
    ¬ AskedAlike parseM routerM (requestM "OPTIONS /v1/echo HTTP/1.1") (requestM "OPTIONS /models/m/v1/echo HTTP/1.1") := by
  have reads : read (requestM "OPTIONS /v1/echo HTTP/1.1") =
      .ok (["OPTIONS /v1/echo HTTP/1.1".toList,"Content-Length: 13".toList],⟨namesM,none⟩) := by decide +kernel
  have reads' : read (requestM "OPTIONS /models/m/v1/echo HTTP/1.1") =
      .ok (["OPTIONS /models/m/v1/echo HTTP/1.1".toList,"Content-Length: 13".toList],⟨namesM,none⟩) := by decide +kernel
  obtain ⟨head,parses,options⟩ : ∃ head, parse ["OPTIONS /v1/echo HTTP/1.1".toList,"Content-Length: 13".toList] = .ok head ∧
      head.method = "OPTIONS".toList := ⟨_,rfl,by decide⟩
  have preflights : route parseM routerM head ⟨namesM,none⟩ = .error [.Reply (preflight head.endpoint)] := route_options options
  refine ⟨by decide,⟨_,reads⟩,⟨_,reads'⟩,?_⟩
  rintro (⟨generic,_,buffered,_,⟨lines,reader,is,of,earned⟩,_⟩ | ⟨message,interim,refused⟩)
  · rw [reads] at is
    cases is
    rw [parses] at of
    cases of
    rw [preflights] at earned
    cases earned
  · have one := (refused id id).1
    rw [answer_of_route reads parses preflights] at one
    have same : preflight head.endpoint = refuse ⟨.ModelNotFound,message⟩ := by
      simpa using congrArg (fun exchange => exchange.sent.getLast?) one
    have statuses : 204 = 404 := congrArg Reply.status same
    omega

end Maestro.Proxy
