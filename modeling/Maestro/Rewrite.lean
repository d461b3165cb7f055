import Maestro.Head

/-!
# The head that is sent on, line by line

A header line is arbitrary text without a line feed: it may carry carriage
returns, an empty name or no colon. What is sent on is cut at its line ends
again, and each piece is one line of the request.
-/
namespace Maestro.Proxy
open Socket

/-- The pieces of a text between its line ends, as `str::split` cuts it at a
    carriage return with a line feed. -/
def splitCrlf : List Char → List (List Char)
  | [] => [[]]
  | [c] => [[c]]
  | c :: d :: rest => if c = '\r' ∧ d = '\n' then [] :: splitCrlf rest else (splitCrlf (d :: rest)).modifyHead (c :: ·)

/-- A header as it is written, without its line end. -/
def headerText (header : List Char × List Char) : List Char := header.1 ++ ": ".toList ++ header.2

/-- Stray carriage returns do not end a line, whatever they stand before. -/
theorem splitCrlf_line {line rest : List Char} (plain : '\n' ∉ line) : splitCrlf (line ++ crlf ++ rest) = line :: splitCrlf rest := by
  induction line with
  | nil => simp [crlf,splitCrlf]
  | cons c line ih =>
    have onward := ih fun member => plain (List.mem_cons_of_mem c member)
    obtain ⟨d,more,shape,other⟩ : ∃ d more, line ++ crlf ++ rest = d :: more ∧ d ≠ '\n' := by
      cases line with
      | nil => exact ⟨'\r','\n' :: rest,rfl,by decide⟩
      | cons d line => exact ⟨d,line ++ crlf ++ rest,rfl,fun same => plain (by simp [same])⟩
    have cut : splitCrlf (c :: d :: more) = (splitCrlf (d :: more)).modifyHead (c :: ·) := by
      rw [splitCrlf,if_neg fun both => other both.2]
    rw [List.cons_append,List.cons_append,shape,cut,← shape,onward]
    rfl

/-- Lines one after the other, then an empty one. -/
theorem splitCrlf_headers {headers : List (List Char × List Char)} (plain : ∀ header ∈ headers, '\n' ∉ headerText header) :
    splitCrlf ((headers.map headerLine).flatten ++ crlf) = headers.map headerText ++ [[],[]] := by
  induction headers with
  | nil => decide
  | cons header headers ih =>
    have shape : ((header :: headers).map headerLine).flatten ++ crlf =
        headerText header ++ crlf ++ ((headers.map headerLine).flatten ++ crlf) := by
      simp [headerLine,headerText]
    rw [shape,splitCrlf_line (plain header List.mem_cons_self),ih fun other member => plain other (List.mem_cons_of_mem _ member)]
    rfl

theorem Received.plain {header : List Char × List Char} (received : Received header) : '\n' ∉ headerText header := by
  simp [headerText,received.line.1,received.line.2]

/-- The header lines of a text cut at its line ends. -/
def headerLinesOf (text : List Char) : List (List Char) := (splitCrlf text).tail

/-- The lines that are sent carry the request and nothing more. -/
structure CarriesOnly (lines : List (List Char)) (head : Head) (upstream : SocketAddr) : Prop where
  /-- The request line, a line for each header, an empty line, nothing. -/
  shape : splitCrlf (head.rewrite upstream) =
    (head.method ++ " ".toList ++ head.endpoint.suffix ++ " HTTP/1.1".toList) ::
      (((headerLinesOf (head.rewrite upstream)).filterMap headerOf).map headerText ++ [[],[]])
  filled : ∀ header ∈ (headerLinesOf (head.rewrite upstream)).filterMap headerOf, headerText header ≠ []
  host : ((headerLinesOf (head.rewrite upstream)).filterMap headerOf).filter (isNamed "host") = [("Host".toList,upstream.text)]
  connection : ((headerLinesOf (head.rewrite upstream)).filterMap headerOf).filter (isNamed "connection") =
    [("Connection".toList,"close".toList)]
  expect : ((headerLinesOf (head.rewrite upstream)).filterMap headerOf).filter (isNamed "expect") = []
  others : ((headerLinesOf (head.rewrite upstream)).filterMap headerOf).filter (fun header => !answeredHere header) =
    (headersOf lines).filter fun header => !answeredHere header
  again : ∃ line reparsed, lines.head? = some line ∧ parse (line :: headerLinesOf (head.rewrite upstream)) = .ok reparsed ∧
    reparsed.length = head.length ∧ reparsed.chunked = head.chunked

/-! ## The lines that are sent -/

section Sent
variable {lines : List (List Char)} {head : Head} (parses : parse lines = .ok head) (plain : ∀ line ∈ lines, '\n' ∉ line)
  (upstream : SocketAddr)
include parses plain

theorem splitCrlf_rewrite : splitCrlf (head.rewrite upstream) =
    head.requestText :: ((head.sent upstream).map headerText ++ [[],[]]) := by
  rw [rewrite_eq,splitCrlf_line (requestText_plain parses),
    splitCrlf_headers fun header member => (sent_received parses plain upstream header member).plain]

/-- Each line that is sent is read back as the header it was made from. -/
theorem headerLines_rewrite : (headerLinesOf (head.rewrite upstream)).filterMap headerOf = head.sent upstream := by
  have received := sent_received parses plain upstream
  rw [headerLinesOf,splitCrlf_rewrite parses plain,List.tail_cons,List.filterMap_append]
  have none : [([] : List Char),[]].filterMap headerOf = [] := by decide
  rw [none,List.append_nil,List.filterMap_map]
  have each : ∀ header ∈ head.sent upstream, (headerOf ∘ headerText) header = some header := by
    intro header member
    have read : headerOf (header.1 ++ ": ".toList ++ header.2 ++ []) = some header := headerOf_padded (received header member) (by simp)
    rwa [List.append_nil] at read
  rw [List.filterMap_congr each,List.filterMap_some]

end Sent

theorem headerText_ne_nil (header : List Char × List Char) : headerText header ≠ [] := by
  intro empty
  have lengths := congrArg List.length empty
  simp [headerText] at lengths

theorem filter_named_passed (head : Head) (name : String)
    (answered : ∀ header, isNamed name header = true → answeredHere header = true) : head.passed.filter (isNamed name) = [] := by
  rw [List.filter_eq_nil_iff]
  intro header member named
  have kept := (List.mem_filter.mp member).2
  rw [answered header named] at kept
  cases kept

theorem host_answered (upstream : SocketAddr) : answeredHere ("Host".toList,upstream.text) = true := by
  have named : isNamed "host" ("Host".toList,upstream.text) = true := by
    change Text.eqIgnoreAsciiCase "Host".toList "host".toList = true
    decide
  rw [answeredHere,named]
  rfl

/-- The length and the framing declared are those of the headers passed through. -/
theorem announces_passed (head : Head) : head.passed.any announcesChunked = head.headers.any announcesChunked := by
  rw [Bool.eq_iff_iff,List.any_eq_true,List.any_eq_true]
  constructor
  · rintro ⟨header,member,announces⟩
    exact ⟨header,(List.mem_filter.mp member).1,announces⟩
  · rintro ⟨header,member,announces⟩
    have named : isNamed "transfer-encoding" header = true := (Bool.and_eq_true_iff.mp announces).1
    have host := isNamed_one (b := "host") named (by decide)
    have connection := isNamed_one (b := "connection") named (by decide)
    have expect := isNamed_one (b := "expect") named (by decide)
    exact ⟨header,List.mem_filter.mpr ⟨member,by simp [answeredHere,host,connection,expect]⟩,announces⟩

theorem announces_sent (head : Head) (upstream : SocketAddr) :
    (head.sent upstream).any announcesChunked = head.headers.any announcesChunked := by
  have host : announcesChunked ("Host".toList,upstream.text) = false := by
    have other : isNamed "transfer-encoding" ("Host".toList,upstream.text) = false := by
      change Text.eqIgnoreAsciiCase "Host".toList "transfer-encoding".toList = false
      decide
    rw [announcesChunked,other,Bool.false_and]
  have connection : announcesChunked ("Connection".toList,"close".toList) = false := by decide
  rw [Head.sent,List.any_cons,List.any_cons,host,connection,Bool.false_or,Bool.false_or,announces_passed]

theorem lengthsOf_sent_headers (head : Head) (upstream : SocketAddr) :
    lengthsOf (head.sent upstream) = lengthsOf head.headers := by
  have host : isNamed "content-length" ("Host".toList,upstream.text) = false := by
    change Text.eqIgnoreAsciiCase "Host".toList "content-length".toList = false
    decide
  have connection : isNamed "content-length" ("Connection".toList,"close".toList) = false := by decide
  rw [← lengthsOf_passed,lengthsOf,Head.sent,List.filter_cons,host,List.filter_cons,connection]
  rfl

/-- A request line that parses goes with any header lines. -/
theorem parse_other {line : List Char} {rest others : List (List Char)} {head : Head} (parses : parse (line :: rest) = .ok head) :
    parse (line :: others) = .ok (others.foldl Head.readHeader ⟨head.method,head.endpoint,[],.Absent,false,false⟩) := by
  obtain ⟨_,_,_,_,first,method,path,more,is,words,method_is,endpoint_is⟩ := parse_ok parses
  cases is
  simp only [parse,words,endpoint_is,method_is]

/-- Whatever lines a connection sends that make up a head, the rewritten head
    carries them and nothing more. -/
theorem rewrite_carries {source rest : Source} {lines : List (List Char)} {head : Head} (reads : read source = .ok (lines,rest))
    (parses : parse lines = .ok head) (upstream : SocketAddr) : CarriesOnly lines head upstream := by
  have plain := read_plain reads
  have sent := headerLines_rewrite parses plain upstream
  have headers := (parse_ok parses).1
  have connection_other : isNamed "host" ("Connection".toList,"close".toList) = false := by decide
  have connection_own : isNamed "connection" ("Connection".toList,"close".toList) = true := by decide
  have connection_expect : isNamed "expect" ("Connection".toList,"close".toList) = false := by decide
  have host_own : isNamed "host" ("Host".toList,upstream.text) = true := by
    change Text.eqIgnoreAsciiCase "Host".toList "host".toList = true
    decide
  have host_other : isNamed "connection" ("Host".toList,upstream.text) = false := isNamed_one host_own (by decide)
  have host_expect : isNamed "expect" ("Host".toList,upstream.text) = false := isNamed_one host_own (by decide)
  constructor
  · rw [sent,splitCrlf_rewrite parses plain]
    rfl
  · exact fun header _ => headerText_ne_nil header
  · have none := filter_named_passed head "host" fun header named => by rw [answeredHere,named]; rfl
    rw [sent,Head.sent,List.filter_cons,if_pos host_own,List.filter_cons,connection_other,none]
    rfl
  · have none := filter_named_passed head "connection" fun header named => by
      rw [answeredHere,named,Bool.or_true,Bool.true_or]
    rw [sent,Head.sent,List.filter_cons,host_other,List.filter_cons,if_pos connection_own,none]
    rfl
  · have none := filter_named_passed head "expect" fun header named => by rw [answeredHere,named,Bool.or_true]
    rw [sent,Head.sent,List.filter_cons,host_expect,List.filter_cons,connection_expect,none]
    rfl
  · have connection_answered : answeredHere ("Connection".toList,"close".toList) = true := by decide
    rw [sent,Head.sent,List.filter_cons,host_answered,List.filter_cons,connection_answered,Head.passed,List.filter_filter,← headers]
    simp
  · obtain ⟨line,later,rfl⟩ : ∃ line later, lines = line :: later := by
      cases lines with
      | nil => cases parses
      | cons line later => exact ⟨line,later,rfl⟩
    refine ⟨line,_,rfl,parse_other parses,?_,?_⟩
    · rw [foldl_readHeader,sent,lengthsOf_sent_headers,headers]
      exact (parse_ok parses).2.1.symm
    · rw [foldl_readHeader,sent,announces_sent,headers]
      exact (parse_ok parses).2.2.1.symm

/-- A header of two carriage returns, and one without a name, go on as they
    came. -/
theorem stray_returns_carried :
    let sent : Source := ⟨Utf8.encode "GET /v1/embeddings HTTP/1.1\r\nHOST: router\r\n: a\r\rb\r\nno colon\r\n\r\n".toList,none⟩
    let upstream : SocketAddr := ⟨"127.0.0.1:41234".toList,Text.forall_mem_of_all (by decide)⟩
    ∃ lines rest head, read sent = .ok (lines,rest) ∧ parse lines = .ok head ∧ CarriesOnly lines head upstream := by
  intro sent upstream
  have reads : read sent = .ok (["GET /v1/embeddings HTTP/1.1".toList,"HOST: router".toList,": a\r\rb".toList,"no colon".toList],⟨[],none⟩) := by
    decide +kernel
  have parses : parse ["GET /v1/embeddings HTTP/1.1".toList,"HOST: router".toList,": a\r\rb".toList,"no colon".toList] =
      .ok ⟨"GET".toList,.Generic "/v1/embeddings".toList,[("HOST".toList,"router".toList),([],"a\r\rb".toList)],.Absent,false,false⟩ := by
    decide +kernel
  exact ⟨_,_,_,reads,parses,rewrite_carries reads parses upstream⟩

end Maestro.Proxy
