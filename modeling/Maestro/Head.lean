import Maestro.HeadRead
import Maestro.Endpoint

/-!
# The request head: what the router reads of a request, and what it sends on

Lines in, a parsed head out, and a rewritten head back to text.
-/
namespace Maestro.Proxy

/-- What a request said about the length of its body. -/
inductive Length
  | Absent
  | Given (bytes : ℕ)
  | Malformed (value : List Char)
deriving DecidableEq, Repr

structure Head where
  method : List Char
  endpoint : Endpoint
  headers : List (List Char × List Char)
  length : Length
  chunked : Bool
  expectsContinue : Bool
deriving DecidableEq, Repr

/-- A request this router cannot read as one. -/
def malformed (reason : String) : Refusal := ⟨.MalformedRequest,reason⟩

def isNamed (name : String) (header : List Char × List Char) : Bool := Text.eqIgnoreAsciiCase header.1 name.toList

/-- The name and the value of a header line, if it has a colon. -/
def headerOf (line : List Char) : Option (List Char × List Char) :=
  (Text.splitOnce ':' line).map fun (name,value) => (Text.trim name,Text.trim value)

/-- `str::parse` for a `usize`. -/
def parseLength (value : List Char) : Option ℕ := Text.parseUnsigned 64 value

def lengthOf (value : List Char) : Length :=
  match parseLength value with
  | some bytes => .Given bytes
  | none => .Malformed value

def announcesChunked (header : List Char × List Char) : Bool :=
  isNamed "transfer-encoding" header && Text.contains (Text.toAsciiLowercase header.2) "chunked".toList

def expectsToContinue (header : List Char × List Char) : Bool :=
  isNamed "expect" header && Text.eqIgnoreAsciiCase header.2 "100-continue".toList

/-- One turn of the loop over the header lines. -/
def Head.readHeader (self : Head) (line : List Char) : Head :=
  match headerOf line with
  | none => self
  | some header =>
    { self with
      length := if isNamed "content-length" header then lengthOf header.2 else self.length
      chunked := self.chunked || announcesChunked header
      expectsContinue := self.expectsContinue || expectsToContinue header
      headers := self.headers ++ [header] }

/-- Turns the lines of a head into the parts the router routes on. -/
def parse (lines : List (List Char)) : Except Refusal Head :=
  match lines with
  | [] => .error (malformed "a request with no request line")
  | line :: rest =>
    match Text.words line with
    | [] => .error (malformed "a request line with no method")
    | [_] => .error (malformed "a request line with no path")
    | method :: path :: _ =>
      match Endpoint.of path with
      | .error refusal => .error refusal
      | .ok endpoint => .ok (rest.foldl Head.readHeader ⟨method,endpoint,[],.Absent,false,false⟩)

/-- How many bytes of body to copy. -/
def Head.bodyBytes (self : Head) : ℕ :=
  match self.length with
  | .Given bytes => bytes
  | .Absent | .Malformed _ => 0

/-- Where a child answers, as an address is written: without white space. -/
structure SocketAddr where
  text : List Char
  plain : ∀ c ∈ text, Text.whiteSpace c = false

theorem loopback_plain : ∀ c ∈ "127.0.0.1:41234".toList, Text.whiteSpace c = false := Text.forall_mem_of_all (by decide)

def crlf : List Char := ['\r','\n']

/-- A header that names the router, or that the router has answered itself. -/
def answeredHere (header : List Char × List Char) : Bool :=
  isNamed "host" header || isNamed "connection" header || isNamed "expect" header

/-- The headers passed through as received. -/
def Head.passed (self : Head) : List (List Char × List Char) := self.headers.filter fun header => !answeredHere header

def headerLine (header : List Char × List Char) : List Char := header.1 ++ ": ".toList ++ header.2 ++ crlf

/-- The head to send upstream. -/
def Head.rewrite (self : Head) (upstream : SocketAddr) : List Char :=
  self.method ++ " ".toList ++ self.endpoint.suffix ++ " HTTP/1.1".toList ++ crlf ++
    headerLine ("Host".toList,upstream.text) ++ "Connection: close".toList ++ crlf ++
    (self.passed.map headerLine).flatten ++ crlf

/-! ## What the loop over the headers comes to -/

/-- The headers of a request, in order. -/
def headersOf (lines : List (List Char)) : List (List Char × List Char) := lines.tail.filterMap headerOf

/-- The values of the headers that declare a length, in order. -/
def lengthsOf (headers : List (List Char × List Char)) : List (List Char) :=
  (headers.filter (isNamed "content-length")).map Prod.snd

/-- Each field as the loop leaves it: the last length declared, whether any
    header announced chunks or expects to go on, and every header. -/
theorem foldl_readHeader (lines : List (List Char)) (head : Head) :
    lines.foldl Head.readHeader head =
      { head with
        length := ((lengthsOf (lines.filterMap headerOf)).getLast?.map lengthOf).getD head.length
        chunked := head.chunked || (lines.filterMap headerOf).any announcesChunked
        expectsContinue := head.expectsContinue || (lines.filterMap headerOf).any expectsToContinue
        headers := head.headers ++ lines.filterMap headerOf } := by
  induction lines generalizing head with
  | nil => simp [lengthsOf]
  | cons line lines ih =>
    rw [List.foldl_cons,ih]
    cases is : headerOf line with
    | none => simp [Head.readHeader,is]
    | some header =>
      simp only [Head.readHeader,is,List.filterMap_cons_some is]
      by_cases named : isNamed "content-length" header = true
      · have declared : lengthsOf (header :: lines.filterMap headerOf) =
            header.2 :: lengthsOf (lines.filterMap headerOf) := by simp [lengthsOf,named]
        rw [declared,List.getLast?_cons]
        cases (lengthsOf (lines.filterMap headerOf)).getLast? <;> simp [named,Bool.or_assoc]
      · have declared : lengthsOf (header :: lines.filterMap headerOf) = lengthsOf (lines.filterMap headerOf) := by
          simp [lengthsOf,named]
        rw [declared]
        simp [named,Bool.or_assoc]

/-- What a head that parses is made of. -/
theorem parse_ok {lines : List (List Char)} {head : Head} (parses : parse lines = .ok head) :
    head.headers = headersOf lines ∧
    head.length = ((lengthsOf (headersOf lines)).getLast?.map lengthOf).getD .Absent ∧
    head.chunked = (headersOf lines).any announcesChunked ∧
    head.expectsContinue = (headersOf lines).any expectsToContinue ∧
    ∃ line method path others, lines.head? = some line ∧ Text.words line = method :: path :: others ∧
      head.method = method ∧ Endpoint.of path = .ok head.endpoint := by
  unfold parse at parses
  split at parses
  · cases parses
  · rename_i line rest
    split at parses
    · cases parses
    · cases parses
    · rename_i method path others words
      split at parses
      · cases parses
      · rename_i endpoint is
        rw [foldl_readHeader] at parses
        injection parses with is_head
        subst is_head
        exact ⟨by simp [headersOf],by simp [headersOf],by simp [headersOf],by simp [headersOf],
          line,method,path,others,rfl,words,rfl,is⟩

/-! ## The head that is sent, as the child reads it -/

/-- The headers of a text, one to a line. -/
def sentHeaders (text : List Char) : List (List Char × List Char) := headersOf (text.splitOn '\n')

/-- A header as it was received: trimmed, its name without a colon, on a line. -/
structure Received (header : List Char × List Char) : Prop where
  name : Text.trim header.1 = header.1
  value : Text.trim header.2 = header.2
  colon : ':' ∉ header.1
  line : '\n' ∉ header.1 ∧ '\n' ∉ header.2

theorem headerOf_received {line : List Char} {header : List Char × List Char} (is : headerOf line = some header)
    (plain : '\n' ∉ line) : Received header := by
  obtain ⟨⟨name,value⟩,split,rfl⟩ := Option.map_eq_some_iff.mp is
  obtain ⟨rfl,colon⟩ := Text.splitOnce_eq_some.mp split
  simp only [List.mem_append,List.mem_cons,not_or] at plain
  exact ⟨Text.trim_trim name,Text.trim_trim value,fun member => colon (Text.trim_subset name member),
    fun member => plain.1 (Text.trim_subset name member),fun member => plain.2.2 (Text.trim_subset value member)⟩

/-- A header that was received is read back from the line it is sent on,
    whatever white space its end carries. -/
theorem headerOf_padded {header : List Char × List Char} (received : Received header) {pad : List Char}
    (blank : ∀ c ∈ pad, Text.whiteSpace c = true) :
    headerOf (header.1 ++ ": ".toList ++ header.2 ++ pad) = some header := by
  have split : Text.splitOnce ':' (header.1 ++ ": ".toList ++ header.2 ++ pad) =
      some (header.1,[' '] ++ (header.2 ++ pad)) :=
    Text.splitOnce_eq_some.mpr ⟨by simp,received.colon⟩
  have value : Text.trim ([' '] ++ (header.2 ++ pad)) = header.2 := by
    rw [Text.trim_pad_left (Text.forall_mem_of_all (by decide)),Text.trim_pad_right blank,received.value]
  rw [headerOf,split,Option.map_some]
  dsimp only
  rw [value,received.name]

theorem headerOf_line {header : List Char × List Char} (received : Received header) :
    headerOf (header.1 ++ ": ".toList ++ header.2 ++ ['\r']) = some header :=
  headerOf_padded received (Text.forall_mem_of_all (by decide))

theorem splitOn_line {line rest : List Char} (plain : '\n' ∉ line) :
    (line ++ '\n' :: rest).splitOn '\n' = line :: rest.splitOn '\n' := by
  rw [List.splitOn_eq_splitOnP,List.splitOn_eq_splitOnP]
  refine List.splitOnP_append_cons_of_forall_mem (fun c member => ?_) _ (by simp) _
  simp only [beq_eq_false_iff_ne]
  rintro rfl
  exact plain member

/-- Lines of headers are read back as the headers they carry. -/
theorem sent_lines {headers : List (List Char × List Char)} (received : ∀ header ∈ headers, Received header) :
    (((headers.map headerLine).flatten ++ crlf).splitOn '\n').filterMap headerOf = headers := by
  induction headers with
  | nil => decide
  | cons header headers ih =>
    have here := received header List.mem_cons_self
    have shape : ((header :: headers).map headerLine).flatten ++ crlf =
        (header.1 ++ ": ".toList ++ header.2 ++ ['\r']) ++ '\n' :: ((headers.map headerLine).flatten ++ crlf) := by
      simp [headerLine,crlf]
    have plain : '\n' ∉ header.1 ++ ": ".toList ++ header.2 ++ ['\r'] := by
      simp [here.line.1,here.line.2]
    rw [shape,splitOn_line plain,List.filterMap_cons_some (headerOf_line here),
      ih (fun header member => received header (List.mem_cons_of_mem _ member))]

theorem host_received (upstream : SocketAddr) : Received ("Host".toList,upstream.text) where
  name := by
    change Text.trim "Host".toList = "Host".toList
    decide
  value := Text.trim_of_plain upstream.plain
  colon := by
    change ':' ∉ "Host".toList
    decide
  line := ⟨by change '\n' ∉ "Host".toList; decide,fun member => absurd (upstream.plain _ member) (by decide)⟩

theorem connection_received : Received ("Connection".toList,"close".toList) :=
  ⟨by decide,by decide,by decide,by decide⟩

/-- Every header that is passed through is as it was received. -/
theorem passed_received {lines : List (List Char)} {head : Head} (parses : parse lines = .ok head)
    (plain : ∀ line ∈ lines, '\n' ∉ line) : ∀ header ∈ head.passed, Received header := by
  intro header member
  have inside := (List.mem_filter.mp member).1
  rw [(parse_ok parses).1,headersOf,List.mem_filterMap] at inside
  obtain ⟨source,within,is⟩ := inside
  exact headerOf_received is (plain source (List.mem_of_mem_tail within))

/-- The request line as it is sent. -/
def Head.requestText (self : Head) : List Char := self.method ++ " ".toList ++ self.endpoint.suffix ++ " HTTP/1.1".toList

theorem requestText_plain {lines : List (List Char)} {head : Head} (parses : parse lines = .ok head) :
    '\n' ∉ head.requestText := by
  obtain ⟨_,_,_,_,line,method,path,others,first,words,method_is,endpoint_is⟩ := parse_ok parses
  have bare : ∀ word ∈ Text.words line, '\n' ∉ word :=
    fun word inside member => absurd (Text.words_plain inside _ member) (by decide)
  have method_bare : '\n' ∉ head.method := by
    rw [method_is]
    exact bare method (by simp [words])
  have path_in : path ∈ Text.words line := by simp [words]
  have suffix_bare : '\n' ∉ head.endpoint.suffix :=
    fun member => absurd (suffix_plain endpoint_is (Text.words_plain path_in) _ member) (by decide)
  simp [Head.requestText,method_bare,suffix_bare]

/-- The headers that are sent: the router's own two, then those passed through. -/
def Head.sent (self : Head) (upstream : SocketAddr) : List (List Char × List Char) :=
  ("Host".toList,upstream.text) :: ("Connection".toList,"close".toList) :: self.passed

theorem sent_received {lines : List (List Char)} {head : Head} (parses : parse lines = .ok head)
    (plain : ∀ line ∈ lines, '\n' ∉ line) (upstream : SocketAddr) : ∀ header ∈ head.sent upstream, Received header := by
  intro header member
  rcases List.mem_cons.mp member with rfl | member
  · exact host_received upstream
  rcases List.mem_cons.mp member with rfl | member
  · exact connection_received
  · exact passed_received parses plain header member

/-- The rewritten head is the request line, a line for each header sent, and an
    empty line. -/
theorem rewrite_eq (head : Head) (upstream : SocketAddr) : head.rewrite upstream =
    head.requestText ++ crlf ++ (((head.sent upstream).map headerLine).flatten ++ crlf) := by
  simp [Head.rewrite,Head.requestText,Head.sent,headerLine]

/-- The child reads the router's own two headers and then those passed through. -/
theorem sent_rewrite {lines : List (List Char)} {head : Head} (parses : parse lines = .ok head)
    (plain : ∀ line ∈ lines, '\n' ∉ line) (upstream : SocketAddr) :
    sentHeaders (head.rewrite upstream) =
      ("Host".toList,upstream.text) :: ("Connection".toList,"close".toList) :: head.passed := by
  have request : '\n' ∉ head.requestText ++ ['\r'] := by
    simp [requestText_plain parses]
  have shape : head.rewrite upstream =
      (head.requestText ++ ['\r']) ++ '\n' :: (((head.sent upstream).map headerLine).flatten ++ crlf) := by
    simp [rewrite_eq,crlf]
  rw [sentHeaders,shape,splitOn_line request,headersOf,List.tail_cons,sent_lines (sent_received parses plain upstream)]
  rfl

theorem isNamed_iff {name : String} {header : List Char × List Char} : isNamed name header = true ↔
    Text.toAsciiLowercase header.1 = Text.toAsciiLowercase name.toList := by
  simp [isNamed,Text.eqIgnoreAsciiCase]

/-- A header has one name. -/
theorem isNamed_one {a b : String} {header : List Char × List Char} (is : isNamed a header = true)
    (other : Text.toAsciiLowercase a.toList ≠ Text.toAsciiLowercase b.toList) : isNamed b header = false := by
  rw [Bool.eq_false_iff]
  intro also
  exact other ((isNamed_iff.mp is).symm.trans (isNamed_iff.mp also))

/-- Every length the caller declared is sent on, and no other. -/
theorem lengthsOf_passed (head : Head) : lengthsOf head.passed = lengthsOf head.headers := by
  rw [lengthsOf,Head.passed,List.filter_filter,lengthsOf]
  congr 2
  funext header
  cases is : isNamed "content-length" header with
  | false => rfl
  | true =>
    have host := isNamed_one (b := "host") is (by decide)
    have connection := isNamed_one (b := "connection") is (by decide)
    have expect := isNamed_one (b := "expect") is (by decide)
    simp [answeredHere,host,connection,expect]

theorem lengthsOf_sent {lines : List (List Char)} {head : Head} (parses : parse lines = .ok head)
    (plain : ∀ line ∈ lines, '\n' ∉ line) (upstream : SocketAddr) :
    lengthsOf (sentHeaders (head.rewrite upstream)) = lengthsOf head.headers := by
  have host : isNamed "content-length" ("Host".toList,upstream.text) = false := by
    change Text.eqIgnoreAsciiCase "Host".toList "content-length".toList = false
    decide
  have connection : isNamed "content-length" ("Connection".toList,"close".toList) = false := by decide
  rw [sent_rewrite parses plain,← lengthsOf_passed,lengthsOf,List.filter_cons,host,List.filter_cons,connection]
  rfl

end Maestro.Proxy
