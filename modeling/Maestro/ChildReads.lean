import Maestro.Copying
import Maestro.EmptyLine
import Maestro.HeadBounds
import Maestro.OneFraming
import Maestro.Rewrite
import Maestro.TwoEndpoints

/-!
# The request as the child reads it

A child is written the rewritten head and then the body, in whatever pieces the
caller's side delivers it. A reader that ends a head at the first line made of
line terminators, and one that ends it at the first empty line, both find the
lines that were meant, and behind them the body and nothing else.
-/
namespace Maestro.Proxy
open Socket EmptyLine

/-! ## A line, and reading it back -/

/-- A line of text that no terminator is part of or stands behind. -/
structure Solid (line : List Char) : Prop where
  filled : line ≠ []
  one : '\n' ∉ line
  closed : ∀ last, line.getLast? = some last → isTerminator last = false

/-- The bytes of a line, with its end. -/
def lineBytes (line : List Char) : List UInt8 := Utf8.encode line ++ [13,10]

theorem encode_append (a b : List Char) : Utf8.encode (a ++ b) = Utf8.encode a ++ Utf8.encode b := by simp [Utf8.encode]

theorem encode_crlf : Utf8.encode crlf = [13,10] := by decide

theorem decode_lineBytes (line : List Char) : Utf8.decode (lineBytes line) = some (line ++ crlf) := by
  rw [lineBytes,← encode_crlf,← encode_append,Utf8.decode_encode]

theorem feed_not_mem {line : List Char} (one : '\n' ∉ line) : 10 ∉ Utf8.encode line := by
  rw [Utf8.mem_encode (by decide)]
  rintro ⟨c,member,feed⟩
  obtain rfl : c = '\n' := Char.toNat_inj.mp feed
  exact one member

theorem lineBytes_isLine {line : List Char} (one : '\n' ∉ line) : Lines.IsLine 10 (lineBytes line) := by
  refine ⟨Utf8.encode line ++ [13],?_,by simp [lineBytes]⟩
  simp [feed_not_mem one]

theorem Solid.trimmed {line : List Char} (solid : Solid line) : Text.trimEndMatches isTerminator (line ++ crlf) = line := by
  have shape : line ++ crlf = line ++ ['\r'] ++ ['\n'] := by simp [crlf]
  rw [Text.trimEndMatches,shape,List.rdropWhile_concat_pos _ _ _ (by decide),List.rdropWhile_concat_pos _ _ _ (by decide),
    List.rdropWhile_eq_self_iff]
  intro filled last
  rw [solid.closed _ (List.getLast?_eq_some_getLast filled)] at last
  cases last

theorem Solid.lineText {line : List Char} (solid : Solid line) : lineText (lineBytes line) = some line := by
  rw [Proxy.lineText,decode_lineBytes,Option.map_some,solid.trimmed]

theorem Solid.not_blank {line : List Char} (solid : Solid line) : ¬ Blank (lineBytes line) := by
  rw [← blank_iff (decode_lineBytes line),solid.trimmed,List.isEmpty_iff]
  exact solid.filled

theorem encode_written (lines : List (List Char)) :
    Utf8.encode (written '\r' '\n' lines) = (lines.map lineBytes).flatten := by
  induction lines with
  | nil => rfl
  | cons line lines ih =>
    have shape : written '\r' '\n' (line :: lines) = line ++ crlf ++ written '\r' '\n' lines := rfl
    rw [shape,encode_append,encode_append,encode_crlf,ih]
    rfl

/-- Solid lines and an empty one end a head right there, whatever follows. -/
theorem splitAtBlank_written {lines : List (List Char)} (solid : ∀ line ∈ lines, Solid line) (body : List UInt8)
    (failure : Option IoError) :
    SplitAtBlank ⟨Utf8.encode (written '\r' '\n' lines ++ crlf) ++ body,failure⟩ lines ⟨body,failure⟩ := by
  refine ⟨lines.map lineBytes,[13,10],⟨?_,?_,⟨[13],by decide,rfl⟩,by decide⟩,?_,rfl⟩
  · rw [encode_append,encode_written,encode_crlf,List.append_assoc]
  · intro bytes member
    obtain ⟨line,listed,rfl⟩ := List.mem_map.mp member
    exact ⟨lineBytes_isLine (solid line listed).one,(solid line listed).not_blank⟩
  · rw [List.map_map]
    exact List.map_congr_left fun line listed => (solid line listed).lineText

/-- A router reads them too, where they are within its bounds. -/
theorem readFrom_written {lines : List (List Char)} (solid : ∀ line ∈ lines, Solid line) (body : List UInt8)
    (failure : Option IoError) {spare read : ℕ}
    (within : read + (Utf8.encode (written '\r' '\n' lines ++ crlf)).length ≤ MAX_HEAD_BYTES) (few : lines.length ≤ spare)
    (before : List (List Char)) :
    readFrom spare read before ⟨Utf8.encode (written '\r' '\n' lines ++ crlf) ++ body,failure⟩ =
      .ok (before ++ lines,⟨body,failure⟩) := by
  induction lines generalizing spare read before with
  | nil =>
    have ends : Utf8.encode (written '\r' '\n' [] ++ crlf) = [13,10] := encode_crlf
    have decoded : Utf8.decode [13,10] = some crlf := Utf8.decode_eq_some.mpr encode_crlf.symm
    have blank : Lines.IsLine 10 ([13,10] : List UInt8) := ⟨[13],by decide,rfl⟩
    rw [ends] at within ⊢
    have fits : ([13,10] : List UInt8).length ≤ MAX_HEAD_BYTES - read := Nat.le_sub_of_add_le' within
    rw [readFrom_line blank fits decoded failure,if_pos (by decide),List.append_nil]
  | cons line lines ih =>
    have here := solid line List.mem_cons_self
    have shape : Utf8.encode (written '\r' '\n' (line :: lines) ++ crlf) =
        lineBytes line ++ Utf8.encode (written '\r' '\n' lines ++ crlf) := by
      rw [encode_append,encode_append,encode_written,encode_written]
      simp
    rw [shape,List.length_append] at within
    obtain ⟨fewer,rfl⟩ : ∃ fewer, spare = fewer + 1 := ⟨spare - 1,by simp only [List.length_cons] at few; omega⟩
    rw [shape,List.append_assoc,readFrom_line (lineBytes_isLine here.one) (by omega) (decode_lineBytes line) failure,
      if_neg here.not_blank]
    dsimp only
    rw [here.trimmed,ih (fun other member => solid other (List.mem_cons_of_mem line member)) (by omega) (by simpa using few),
      List.append_assoc]
    rfl

/-! ## The lines that are sent -/

/-- The request line and the headers that are sent on. -/
def Head.sentLines (self : Head) (upstream : SocketAddr) : List (List Char) :=
  self.requestText :: (self.sent upstream).map headerText

theorem rewrite_written (head : Head) (upstream : SocketAddr) :
    head.rewrite upstream = written '\r' '\n' (head.sentLines upstream) ++ crlf := by
  have each : headerLine = fun header => headerText header ++ crlf := rfl
  rw [rewrite_eq,each]
  simp [written,Head.sentLines,Function.comp_def,crlf]

/-- Text that is trimmed does not end in a terminator. -/
theorem trimmed_closed {value : List Char} (trimmed : Text.trim value = value) {last : Char} (is : value.getLast? = some last) :
    isTerminator last = false := by
  have filled : (value.dropWhile Text.whiteSpace).rdropWhile Text.whiteSpace ≠ [] := by
    intro none
    rw [Text.trim,none] at trimmed
    rw [← trimmed] at is
    cases is
  have dark := List.rdropWhile_last_not _ _ filled
  have same : (Text.trim value).getLast? = some last := by rw [trimmed,is]
  rw [Text.trim,List.getLast?_eq_some_getLast filled,Option.some.injEq] at same
  rw [same] at dark
  rw [Bool.eq_false_iff]
  intro terminates
  simp only [isTerminator,Bool.or_eq_true,decide_eq_true_eq] at terminates
  rcases terminates with rfl | rfl
  · exact dark (by decide)
  · exact dark (by decide)

theorem Received.solid {header : List Char × List Char} (received : Received header) : Solid (headerText header) := by
  refine ⟨headerText_ne_nil header,received.plain,fun last is => ?_⟩
  rw [headerText,List.getLast?_append] at is
  cases ends : header.2.getLast? with
  | some c =>
    rw [ends] at is
    cases is
    exact trimmed_closed received.value ends
  | none =>
    rw [ends] at is
    have space : (header.1 ++ ": ".toList).getLast? = some ' ' := by
      rw [List.getLast?_append]
      rfl
    rw [space] at is
    cases is
    decide

theorem dedicated_suffix {path id suffix : List Char} (of : Endpoint.of path = .ok (.Dedicated id suffix)) : suffix ≠ [] := by
  unfold Endpoint.of at of
  dsimp only at of
  repeat' split at of
  all_goals cases of
  exact List.cons_ne_nil _ _

section
variable {lines : List (List Char)} {request : Head} (parses : parse lines = .ok request)
include parses

theorem requestText_solid : Solid request.requestText := by
  refine ⟨fun none => ?_,requestText_plain parses,fun last is => ?_⟩
  · have lengths := congrArg List.length none
    simp [Head.requestText] at lengths
  · have one : request.requestText.getLast? = some '1' := by
      rw [Head.requestText,List.getLast?_append]
      rfl
    rw [one] at is
    cases is
    decide

theorem sentLines_solid (plain : ∀ line ∈ lines, '\n' ∉ line) (upstream : SocketAddr) :
    ∀ line ∈ request.sentLines upstream, Solid line := by
  intro line member
  rcases List.mem_cons.mp member with rfl | header
  · exact requestText_solid parses
  · obtain ⟨field,listed,rfl⟩ := List.mem_map.mp header
    exact (sent_received parses plain upstream field listed).solid

theorem suffix_word (childs : request.endpoint.childAnswers = true) : Text.IsWord request.endpoint.suffix := by
  obtain ⟨_,_,_,_,line,method,path,others,_,words,_,endpoint_is⟩ := parse_ok parses
  have listed : path ∈ Text.words line := by simp [words]
  refine ⟨?_,suffix_plain endpoint_is (Text.words_plain listed)⟩
  cases endpoint : request.endpoint with
  | Dedicated id suffix =>
    rw [endpoint] at endpoint_is
    exact dedicated_suffix endpoint_is
  | Generic suffix =>
    rw [endpoint] at endpoint_is
    obtain ⟨rfl,begins⟩ := of_generic endpoint_is
    rintro rfl
    exact absurd (List.prefix_nil.mp begins) (by decide)
  | Listing | Catalogue | Properties =>
    rw [endpoint] at childs
    cases childs

/-- A child's request line is three words: the method, what is behind the name
    of the model, and the version. -/
theorem requestText_words (method : request.method = "GET".toList ∨ request.method = "POST".toList)
    (childs : request.endpoint.childAnswers = true) :
    Text.words request.requestText = [request.method,request.endpoint.suffix,"HTTP/1.1".toList] := by
  have shape : request.requestText = request.method ++ ' ' :: (request.endpoint.suffix ++ ' ' :: "HTTP/1.1".toList) := by
    simp [Head.requestText]
  have word : Text.IsWord request.method := by
    rcases method with is | is
    · rw [is]
      exact ⟨by decide,Text.forall_mem_of_all (by decide)⟩
    · rw [is]
      exact ⟨by decide,Text.forall_mem_of_all (by decide)⟩
  have version : Text.IsWord "HTTP/1.1".toList := ⟨by decide,Text.forall_mem_of_all (by decide)⟩
  rw [shape]
  exact Text.words_line word (suffix_word parses childs) version

end

/-! ## What the child reads -/

/-- What a child makes of the bytes that are written to it. -/
structure ReadsRequest (request : Head) (upstream : SocketAddr) (body bytes : List UInt8) : Prop where
  /-- Where a line may end at a line feed alone. -/
  lenient : ∀ failure, SplitAtBlank ⟨bytes,failure⟩ (request.sentLines upstream) ⟨body,failure⟩
  /-- Where it ends at a carriage return with a line feed. -/
  strict : splitFirst [13,10,13,10] bytes = some (joined 13 10 ((request.sentLines upstream).map Utf8.encode),body)
  words : Text.words request.requestText = [request.method,request.endpoint.suffix,"HTTP/1.1".toList]
  /-- A router in the child's place parses the same request: to the path behind
      the name of the model, with the same body, and nothing to wait for. -/
  parsed : ∀ endpoint, Endpoint.of request.endpoint.suffix = .ok endpoint →
    parse (request.sentLines upstream) =
      .ok ⟨request.method,endpoint,request.sent upstream,request.length,request.chunked,false⟩
  /-- It reads the same lines, where they are within its bounds. -/
  again : ∀ failure, (Utf8.encode (request.rewrite upstream)).length ≤ MAX_HEAD_BYTES →
    (request.sentLines upstream).length ≤ MAX_HEADERS →
    read ⟨bytes,failure⟩ = .ok (request.sentLines upstream,⟨body,failure⟩)

theorem written_encoded (lines : List (List Char)) :
    (lines.map lineBytes).flatten = written 13 10 (lines.map Utf8.encode) := by
  rw [written,List.map_map]
  rfl

theorem Solid.plain {line : List Char} (solid : Solid line) : Plain 10 (Utf8.encode line) := by
  refine ⟨fun none => ?_,feed_not_mem solid.one⟩
  obtain ⟨c,more,rfl⟩ := List.exists_cons_of_ne_nil solid.filled
  simp [Utf8.encode] at none

theorem headers_read {headers : List (List Char × List Char)} (received : ∀ header ∈ headers, Received header) :
    (headers.map headerText).filterMap headerOf = headers := by
  rw [List.filterMap_map]
  have each : ∀ header ∈ headers, (headerOf ∘ headerText) header = some header := by
    intro header member
    have read : headerOf (header.1 ++ ": ".toList ++ header.2 ++ []) = some header := headerOf_padded (received header member) (by simp)
    rwa [List.append_nil] at read
  rw [List.filterMap_congr each,List.filterMap_some]

/-- No header that is sent expects to be told to go on. -/
theorem expects_nothing (head : Head) (upstream : SocketAddr) : (head.sent upstream).any expectsToContinue = false := by
  rw [List.any_eq_false]
  intro header member expects
  have named : isNamed "expect" header = true := (Bool.and_eq_true_iff.mp expects).1
  rcases List.mem_cons.mp member with rfl | member
  · have other : isNamed "expect" ("Host".toList,upstream.text) = false := by
      change Text.eqIgnoreAsciiCase "Host".toList "expect".toList = false
      decide
    rw [other] at named
    cases named
  rcases List.mem_cons.mp member with rfl | member
  · revert named
    decide
  · have kept := (List.mem_filter.mp member).2
    rw [answeredHere,named,Bool.or_true] at kept
    cases kept

section
variable {fromSlice : List UInt8 → Except String Json} {shared : Shared} {source reader : Source} {lines : List (List Char)}
  {request : Head} {routed : Routed}

theorem sent_parsed (parses : parse lines = .ok request) (plain : ∀ line ∈ lines, '\n' ∉ line) (upstream : SocketAddr)
    (words : Text.words request.requestText = [request.method,request.endpoint.suffix,"HTTP/1.1".toList]) {endpoint : Endpoint}
    (of : Endpoint.of request.endpoint.suffix = .ok endpoint) : parse (request.sentLines upstream) =
      .ok ⟨request.method,endpoint,request.sent upstream,request.length,request.chunked,false⟩ := by
  have read := headers_read (sent_received parses plain upstream)
  obtain ⟨headers,length,chunked,_⟩ := parse_ok parses
  rw [Head.sentLines,parse_line words of,foldl_readHeader,read,lengthsOf_sent_headers,announces_sent,expects_nothing,headers,
    ← length,← chunked]
  rfl

/-- A request that is routed is read by the child as it was meant. -/
theorem readsRequest_of_route (reads : read source = .ok (lines,reader)) (parses : parse lines = .ok request)
    (routes : route fromSlice shared request reader = .ok routed) (upstream : SocketAddr) (body : List UInt8) :
    ReadsRequest request upstream body (Utf8.encode (request.rewrite upstream) ++ body) := by
  have plain := read_plain reads
  have solid := sentLines_solid parses plain upstream
  obtain ⟨method,_,_,names,_⟩ := route_earned routes
  have words := requestText_words parses method names.childAnswers
  rw [rewrite_written]
  refine ⟨splitAtBlank_written solid body,?_,words,fun endpoint of => sent_parsed parses plain upstream words of,?_⟩
  · have plain_bytes : ∀ line ∈ (request.sentLines upstream).map Utf8.encode, Plain 10 line := by
      intro line member
      obtain ⟨text,listed,rfl⟩ := List.mem_map.mp member
      exact (solid text listed).plain
    rw [encode_append,encode_written,written_encoded,encode_crlf]
    exact splitFirst_written (by decide) plain_bytes body
  · intro failure within few
    rw [rewrite_written] at within
    have all : readFrom MAX_HEADERS 0 [] ⟨_,failure⟩ = .ok ([] ++ request.sentLines upstream,⟨body,failure⟩) :=
      readFrom_written solid body failure (by omega) few []
    exact all

/-! ## What it is written -/

/-- Read first or passed on as it arrives, the same body is written. -/
theorem sendBody_routed (routes : route fromSlice shared request reader = .ok routed) (arrives : ℕ → ℕ) (upstream : Sink) :
    (sendBody arrives request routed.buffered routed.reader upstream).1 =
      (upstream.writeAll (reader.bytes.take request.bodyBytes)).1 := by
  cases buffered : routed.buffered with
  | some bytes =>
    rw [(route_buffered routes buffered).1]
    rfl
  | none =>
    rw [route_reader routes buffered]
    exact forwardFrom_sink arrives 0 request.bodyBytes reader upstream

theorem written_prefix (room : Option (ℕ × IoError)) (bytes : List UInt8) :
    ((⟨[],room⟩ : Sink).writeAll bytes).1.written <+: bytes := by
  cases room with
  | none => exact List.prefix_rfl
  | some limit =>
    obtain ⟨room,error⟩ := limit
    rw [Sink.writeAll]
    dsimp only
    split_ifs
    · exact List.prefix_rfl
    · exact List.take_prefix room bytes

/-- A child that accepts the connection is written the head and the body as if
    they were one piece. -/
theorem run_upstream (routes : route fromSlice shared request reader = .ok routed) (arrives answers : ℕ → ℕ) {child : Child}
    (accepts : child.peer.refuses = none) : (run arrives answers request child routed.buffered routed.reader).upstream =
      ((⟨[],child.peer.takes⟩ : Sink).writeAll
        (Utf8.encode (request.rewrite child.endpoint) ++ reader.bytes.take request.bodyBytes)).1.written := by
  rw [run,accepts,writeAll_append]
  dsimp only
  rcases (⟨[],child.peer.takes⟩ : Sink).writeAll (Utf8.encode (request.rewrite child.endpoint)) with ⟨sink,_ | error⟩
  · have sends := sendBody_routed routes arrives sink
    dsimp only
    rcases sent : sendBody arrives request routed.buffered routed.reader sink with ⟨after,_ | error⟩
    · rw [sent] at sends
      exact congrArg Sink.written sends
    · rw [sent] at sends
      exact congrArg Sink.written sends
  · rfl

/-- Whatever a caller sends, a request that is routed reaches its child as one
    head and one body: the bytes the child is written are the beginning of bytes
    that read as this request and no more, and all of them where it takes them. -/
theorem child_reads_request (reads : read source = .ok (lines,reader)) (parses : parse lines = .ok request)
    (routes : route fromSlice shared request reader = .ok routed) (arrives answers : ℕ → ℕ) (child : Child) :
    ∃ bytes, ReadsRequest request child.endpoint (reader.bytes.take request.bodyBytes) bytes ∧
      (run arrives answers request child routed.buffered routed.reader).upstream <+: bytes ∧
      (child.peer.refuses = none → child.peer.takes = none →
        (run arrives answers request child routed.buffered routed.reader).upstream = bytes) := by
  refine ⟨_,readsRequest_of_route reads parses routes child.endpoint _,?_,fun accepts all => ?_⟩
  · cases refuses : child.peer.refuses with
    | some error =>
      rw [run,refuses]
      exact List.nil_prefix
    | none =>
      rw [run_upstream routes arrives answers refuses]
      exact written_prefix child.peer.takes _
  · rw [run_upstream routes arrives answers accepts,all]
    rfl

end

/-- A body with another request behind it. -/
def postedAhead : Source :=
  ⟨Utf8.encode "POST /models/m/v1/echo HTTP/1.1\r\nContent-Length: 3\r\n\r\nabcGET / HTTP/1.1\r\n\r\n".toList,none⟩

def takingChild : Child := ⟨⟨"127.0.0.1:41234".toList,loopback_plain⟩,⟨none,none,⟨[],none⟩⟩⟩

/-- The child is not sent what is behind the body. -/
theorem posted_ahead_read : ∃ (request : Head) (routed : Routed) (bytes : List UInt8), ReadsRequest request takingChild.endpoint [97,98,99] bytes ∧
    (run id id request takingChild routed.buffered routed.reader).upstream = bytes := by
  have reads : read postedAhead = .ok (["POST /models/m/v1/echo HTTP/1.1".toList,"Content-Length: 3".toList],
      ⟨Utf8.encode "abcGET / HTTP/1.1\r\n\r\n".toList,none⟩) := by decide +kernel
  have parses : parse ["POST /models/m/v1/echo HTTP/1.1".toList,"Content-Length: 3".toList] =
      .ok ⟨"POST".toList,.Dedicated "m".toList "/v1/echo".toList,[("Content-Length".toList,"3".toList)],.Given 3,false,false⟩ := by
    decide +kernel
  obtain ⟨routed,routes⟩ : ∃ routed, route noJson (servedBy takingChild.peer)
      ⟨"POST".toList,.Dedicated "m".toList "/v1/echo".toList,[("Content-Length".toList,"3".toList)],.Given 3,false,false⟩
      ⟨Utf8.encode "abcGET / HTTP/1.1\r\n\r\n".toList,none⟩ = .ok routed := ⟨_,rfl⟩
  obtain ⟨bytes,is,_,all⟩ := child_reads_request reads parses routes id id takingChild
  exact ⟨_,routed,bytes,is,all rfl rfl⟩

end Maestro.Proxy
