import Maestro.Answer
import Maestro.EmptyLine
import Maestro.Pieces
import Maestro.Rewrite
import Maestro.Starting

/-!
# What a client reads of the router's own replies

A reply is text: a status line, a line for each header, an empty line and a body.
A client cuts it at the first empty line and the head at its line ends, as the
router itself reads what a child answers. A message or an identifier is arbitrary
text and stays in the body.
-/
namespace Maestro.Proxy
open EmptyLine

/-! ## A text cut at its first empty line -/

/-- The end of the last line of a head, and the empty line after it. -/
def blankLine : List Char := crlf ++ crlf

/-- Whatever followed the blank line. -/
def bodyOf (reply : List Char) : Option (List Char) := (splitFirst blankLine reply).map Prod.snd

theorem splitCrlf_plain {line : List Char} (plain : '\n' ∉ line) : splitCrlf line = [line] := by
  induction line with
  | nil => rfl
  | cons c line ih =>
    have onward := ih fun member => plain (List.mem_cons_of_mem c member)
    cases line with
    | nil => rfl
    | cons d line =>
      have other : ¬ (c = '\r' ∧ d = '\n') := fun both => plain (by simp [both.2])
      rw [splitCrlf,if_neg other,onward]
      rfl

theorem splitCrlf_joined {line : List Char} {lines : List (List Char)} (plain : ∀ l ∈ line :: lines, Plain '\n' l) :
    splitCrlf (joined '\r' '\n' (line :: lines)) = line :: lines := by
  induction lines generalizing line with
  | nil => exact splitCrlf_plain (plain line (List.mem_cons_self ..)).2
  | cons next lines ih =>
    change splitCrlf (line ++ crlf ++ joined '\r' '\n' (next :: lines)) = _
    rw [splitCrlf_line (plain line (List.mem_cons_self ..)).2,ih fun l member => plain l (List.mem_cons_of_mem line member)]

/-! ## One reply -/

/-- A header that the router writes: plain text, which a reader finds again. -/
structure Written (header : List Char × List Char) : Prop where
  received : Received header
  named : header.1 ≠ []

/-- A reply whose status has three digits and whose headers are plain text. -/
structure Reply.Sound (reply : Reply) : Prop where
  status : reply.status ∈ [200,204,400,404,405,408,411,413,431,501,502,503,504]
  contentType : ∀ contentType, reply.contentType = some contentType → contentType = "application/json"
  headers : ∀ header ∈ reply.headers, Written (header.1.toList,header.2.toList)
  unframed : ∀ header ∈ reply.headers, isNamed "content-length" (header.1.toList,header.2.toList) = false

def Reply.statusLine (self : Reply) : List Char := s!"HTTP/1.1 {self.status} {reason self.status}".toList

/-- The headers of a reply, in the order they are written in. -/
def Reply.fields (self : Reply) : List (List Char × List Char) :=
  (self.contentType.elim [] fun contentType => [("Content-Type".toList,contentType.toList)]) ++
    [("Content-Length".toList,(toString (Utf8.encode self.body).length).toList)] ++
    (self.headers.map fun header => (header.1.toList,header.2.toList)) ++
    [("Access-Control-Allow-Origin".toList,"*".toList),("Connection".toList,"close".toList)]

variable {reply : Reply}

theorem toString_text (text : String) : toString text = text := rfl

theorem headerLine_eq (name value : String) : s!"{name}: {value}\r\n".toList = headerText (name.toList,value.toList) ++ crlf := by
  simp [headerText,crlf,toString_text]

/-- A reply's own headers are written a line each. -/
theorem headers_text (headers : List (String × String)) : (headers.flatMap fun (name,value) => s!"{name}: {value}\r\n".toList) =
    written '\r' '\n' ((headers.map fun header => (header.1.toList,header.2.toList)).map headerText) := by
  rw [written,List.map_map,List.map_map,List.flatMap_def]
  exact congrArg List.flatten (List.map_congr_left fun header _ => headerLine_eq header.1 header.2)

/-- A reply is its lines, an empty line, and its body where that is sent. -/
theorem text_eq (reply : Reply) : reply.text =
    written '\r' '\n' (reply.statusLine :: reply.fields.map headerText) ++ crlf ++ (if reply.headOnly then [] else reply.body) := by
  obtain ⟨status,contentType,headers,body,headOnly⟩ := reply
  rw [Reply.text,headers_text]
  cases contentType with
  | none => simp [written,Reply.fields,Reply.statusLine,headerText,crlf,toString_text]
  | some contentType => simp [written,Reply.fields,Reply.statusLine,headerText,crlf,toString_text]

/-! ## Reading it back -/

/-- What a client makes of a reply: the status of its first line, a header from
    each other line, one length, which is that of the whole body, and the body
    where it was sent. -/
structure ReadsBack (reply : Reply) : Prop where
  body : bodyOf reply.text = some (if reply.headOnly then [] else reply.body)
  head : ∃ line lines, (splitFirst blankLine reply.text).map (fun parts => splitCrlf parts.1) = some (line :: lines) ∧
    Starting.health line = some reply.status ∧ lines.map headerOf = reply.fields.map some
  length : (lengthsOf reply.fields).map parseLength = [some (Utf8.encode reply.body).length]

theorem not_white_of_digit {c : Char} (digit : c.isDigit = true) : Text.whiteSpace c = false := by
  obtain ⟨low,high⟩ := Text.digit_bounds digit
  simp only [Text.whiteSpace,Bool.or_eq_false_iff,Bool.and_eq_false_iff,decide_eq_false_iff_not,beq_eq_false_iff_ne]
  omega

theorem decimal (n : ℕ) : (toString n).toList ≠ [] ∧ ∀ d ∈ (toString n).toList, d.isDigit = true := by
  have shape : (toString n).toList = Nat.toDigits 10 n := by simp
  rw [shape]
  exact ⟨Nat.toDigits_ne_nil,fun d digit => Nat.isDigit_of_mem_toDigits (by decide) (by decide) digit⟩

theorem parseLength_decimal {n : ℕ} (small : n < 2 ^ 64) : parseLength (toString n).toList = some n := by
  obtain ⟨filled,digits⟩ := decimal n
  refine Text.parseUnsigned_eq_some.mpr ⟨⟨_,.inl rfl,filled,digits,?_⟩,small⟩
  have shape : (toString n).toList = Nat.toDigits 10 n := by simp
  rw [shape,Nat.ofDigitChars_ten_toDigits]

/-- A name with neither a colon nor white space in it. A check of the list: whether
    a property holds of all characters there are is not to be decided. -/
def headerName (name : String) : Bool := !name.toList.isEmpty && name.toList.all fun c => c != ':' && !Text.whiteSpace c

theorem headerName_spec {name : String} (named : headerName name = true) : name.toList ≠ [] ∧ ':' ∉ name.toList ∧
    ∀ c ∈ name.toList, Text.whiteSpace c = false := by
  rw [headerName,Bool.and_eq_true,List.all_eq_true] at named
  obtain ⟨filled,each⟩ := named
  have both : ∀ c ∈ name.toList, c ≠ ':' ∧ Text.whiteSpace c = false := fun c member => by simpa using each c member
  refine ⟨fun empty => ?_,fun colon => (both ':' colon).1 rfl,fun c member => (both c member).2⟩
  rw [empty] at filled
  cases filled

/-- Plain text with neither white space at its ends nor a line feed, under a name
    without a colon, is what a header is read as. -/
theorem written_of (name : String) {value : List Char} (named : headerName name = true) (trimmed : Text.trim value = value)
    (plain : '\n' ∉ value) : Written (name.toList,value) := by
  obtain ⟨filled,uncoloned,dark⟩ := headerName_spec named
  refine ⟨⟨Text.trim_of_plain dark,trimmed,uncoloned,fun feed => ?_,plain⟩,filled⟩
  have white := dark _ feed
  revert white
  decide

theorem decimal_written (n : ℕ) : Written ("Content-Length".toList,(toString n).toList) := by
  obtain ⟨_,digits⟩ := decimal n
  refine written_of "Content-Length" (by decide) (Text.trim_of_plain fun c member => not_white_of_digit (digits c member)) fun feed => ?_
  have digit := digits _ feed
  revert digit
  decide

theorem fields_written (sound : reply.Sound) : ∀ header ∈ reply.fields, Written header := by
  have content : ∀ header ∈ (reply.contentType.elim [] fun contentType => [("Content-Type".toList,contentType.toList)]), Written header := by
    cases given : reply.contentType with
    | none => exact nofun
    | some contentType =>
      intro header member
      rw [Option.elim_some,List.mem_singleton,sound.contentType contentType given] at member
      rw [member]
      exact written_of "Content-Type" (by decide) (by decide) (by decide)
  intro header member
  simp only [Reply.fields,List.mem_append,List.mem_map,List.mem_cons,List.not_mem_nil,or_false] at member
  rcases member with ((member | rfl) | ⟨given,listed,rfl⟩) | rfl | rfl
  · exact content header member
  · exact decimal_written _
  · exact sound.headers given listed
  · exact written_of "Access-Control-Allow-Origin" (by decide) (by decide) (by decide)
  · exact written_of "Connection" (by decide) (by decide) (by decide)

/-- The length is declared once. -/
theorem fields_length (sound : reply.Sound) : lengthsOf reply.fields = [(toString (Utf8.encode reply.body).length).toList] := by
  have content : (reply.contentType.elim [] fun contentType => [("Content-Type".toList,contentType.toList)]).filter
      (isNamed "content-length") = [] := by
    cases reply.contentType with
    | none => rfl
    | some contentType =>
      have other : isNamed "content-length" ("Content-Type".toList,contentType.toList) = false := by
        change Text.eqIgnoreAsciiCase "Content-Type".toList "content-length".toList = false
        decide
      rw [Option.elim_some,List.filter_cons,other]
      rfl
  have own : isNamed "content-length" ("Content-Length".toList,(toString (Utf8.encode reply.body).length).toList) = true := by
    change Text.eqIgnoreAsciiCase "Content-Length".toList "content-length".toList = true
    decide
  have headers : (reply.headers.map fun header => (header.1.toList,header.2.toList)).filter (isNamed "content-length") = [] := by
    rw [List.filter_eq_nil_iff]
    intro header member
    obtain ⟨given,listed,rfl⟩ := List.mem_map.mp member
    rw [sound.unframed given listed]
    exact Bool.noConfusion
  have fixed : [("Access-Control-Allow-Origin".toList,"*".toList),("Connection".toList,"close".toList)].filter
      (isNamed "content-length") = [] := by decide
  rw [lengthsOf,Reply.fields,List.filter_append,List.filter_append,List.filter_append,content,headers,fixed,List.filter_cons,own]
  rfl

/-- The status line says the status, on a line. -/
theorem statusLine_reads : ∀ status ∈ [200,204,400,404,405,408,411,413,431,501,502,503,504],
    Plain '\n' s!"HTTP/1.1 {status} {reason status}".toList ∧
      Starting.health s!"HTTP/1.1 {status} {reason status}".toList = some status := by
  have plain (line : List Char) (is : (!line.isEmpty && !line.contains '\n') = true) : Plain '\n' line := by
    simpa [Plain] using is
  intro status member
  simp only [List.mem_cons,List.not_mem_nil,or_false] at member
  rcases member with rfl | rfl | rfl | rfl | rfl | rfl | rfl | rfl | rfl | rfl | rfl | rfl | rfl
  all_goals exact ⟨plain _ (by decide +kernel),by decide +kernel⟩

theorem lines_plain (sound : reply.Sound) : ∀ line ∈ reply.statusLine :: reply.fields.map headerText, Plain '\n' line := by
  intro line member
  rcases List.mem_cons.mp member with rfl | header
  · exact (statusLine_reads reply.status sound.status).1
  · obtain ⟨field,listed,rfl⟩ := List.mem_map.mp header
    exact ⟨headerText_ne_nil field,(fields_written sound field listed).received.plain⟩

/-- A sound reply reads back, whatever its body says. -/
theorem sound_reads_back (sound : reply.Sound) (small : (Utf8.encode reply.body).length < 2 ^ 64) : ReadsBack reply := by
  have plain := lines_plain sound
  have cut : splitFirst blankLine reply.text =
      some (joined '\r' '\n' (reply.statusLine :: reply.fields.map headerText),if reply.headOnly then [] else reply.body) := by
    rw [text_eq]
    exact splitFirst_written (by decide) plain _
  refine ⟨?_,⟨reply.statusLine,reply.fields.map headerText,?_,(statusLine_reads reply.status sound.status).2,?_⟩,?_⟩
  · rw [bodyOf,cut]
    rfl
  · rw [cut,Option.map_some,splitCrlf_joined plain]
  · rw [List.map_map]
    refine List.map_congr_left fun header listed => ?_
    have read : headerOf (header.1 ++ ": ".toList ++ header.2 ++ []) = some header :=
      headerOf_padded (fields_written sound header listed).received (by simp)
    rwa [List.append_nil] at read
  · rw [fields_length sound]
    simp only [List.map_cons,List.map_nil,parseLength_decimal small]

/-! ## The replies of the router -/

theorem json_sound (value : Json) (headOnly : Bool) : (json value headOnly).Sound := by
  refine ⟨by simp [json],?_,nofun,nofun⟩
  intro contentType is
  cases is
  rfl

theorem unframed_of (name : String) {value : List Char}
    (other : Text.eqIgnoreAsciiCase name.toList "content-length".toList = false) :
    isNamed "content-length" (name.toList,value) = false := other

theorem allowed_written (endpoint : Endpoint) (name : String) (named : headerName name = true) :
    Written (name.toList,endpoint.allowedText.toList) := by
  have either : endpoint.allowedText = "GET, HEAD, OPTIONS" ∨ endpoint.allowedText = "GET, POST, OPTIONS" := by
    cases endpoint
    · exact .inr rfl
    · exact .inr rfl
    · exact .inl rfl
    · exact .inl rfl
    · exact .inl rfl
  rcases either with is | is
  · rw [is]
    exact written_of name named (by decide) (by decide)
  · rw [is]
    exact written_of name named (by decide) (by decide)

theorem preflight_sound (endpoint : Endpoint) : (preflight endpoint).Sound := by
  refine ⟨by simp [preflight],nofun,?_,?_⟩
  · intro header member
    simp only [preflight,List.mem_cons,List.not_mem_nil,or_false] at member
    rcases member with rfl | rfl | rfl | rfl
    · exact allowed_written endpoint "Allow" (by decide)
    · exact allowed_written endpoint "Access-Control-Allow-Methods" (by decide)
    · exact written_of "Access-Control-Allow-Headers" (by decide) (by decide) (by decide)
    · exact written_of "Access-Control-Max-Age" (by decide) (by decide) (by decide)
  · intro header member
    simp only [preflight,List.mem_cons,List.not_mem_nil,or_false] at member
    rcases member with rfl | rfl | rfl | rfl
    · exact unframed_of "Allow" (by decide)
    · exact unframed_of "Access-Control-Allow-Methods" (by decide)
    · decide
    · decide

/-- What a refusal says to be allowed is what some endpoint allows. -/
def Refusal.Allows (refusal : Refusal) : Prop :=
  ∀ allowed, refusal.cause = .MethodNotAllowed allowed → ∃ endpoint : Endpoint, allowed = endpoint.allowedText

theorem refuse_sound {refusal : Refusal} (allows : Refusal.Allows refusal) : (refuse refusal).Sound := by
  obtain ⟨cause,message⟩ := refusal
  refine ⟨?_,?_,?_,?_⟩
  · cases cause <;> simp [refuse,Cause.status,Cause.describe]
  · intro contentType is
    cases is
    rfl
  · intro header member
    cases cause with
    | MethodNotAllowed allowed =>
      obtain ⟨endpoint,rfl⟩ := allows allowed rfl
      simp only [refuse,Cause.retryAfterSeconds,Option.elim_none,List.nil_append,List.mem_singleton] at member
      rw [member]
      exact allowed_written endpoint "Allow" (by decide)
    | RoomContended =>
      simp only [refuse,Cause.retryAfterSeconds,Option.elim_some,List.append_nil,List.mem_singleton] at member
      rw [member]
      exact written_of "Retry-After" (by decide) (by decide) (by decide)
    | _ => cases member
  · intro header member
    cases cause with
    | MethodNotAllowed allowed =>
      simp only [refuse,Cause.retryAfterSeconds,Option.elim_none,List.nil_append,List.mem_singleton] at member
      rw [member]
      exact unframed_of "Allow" (by decide)
    | RoomContended =>
      simp only [refuse,Cause.retryAfterSeconds,Option.elim_some,List.append_nil,List.mem_singleton] at member
      rw [member]
      exact unframed_of "Retry-After" (by decide)
    | _ => cases member

/-! ## Whatever is asked -/

theorem allows_of {cause : Cause} {message : String} (other : ∀ allowed, cause ≠ .MethodNotAllowed allowed) :
    Refusal.Allows ⟨cause,message⟩ := fun allowed is => absurd is (other allowed)

theorem readFrom_allows {spare count : ℕ} {lines : List (List Char)} {source : Socket.Source} {refusal : Refusal}
    (refused : readFrom spare count lines source = .error refusal) : Refusal.Allows refusal := by
  induction spare generalizing count lines source with
  | zero =>
    rw [readFrom] at refused
    dsimp only at refused
    split_ifs at refused
    · cases refused
      exact allows_of (by simp)
    · split at refused
      · cases refused
        refine allows_of fun allowed is => ?_
        split_ifs at is
      · split_ifs at refused <;> cases refused <;> exact allows_of (by simp)
  | succ spare ih =>
    rw [readFrom] at refused
    dsimp only at refused
    split_ifs at refused
    · cases refused
      exact allows_of (by simp)
    · split at refused
      · cases refused
        refine allows_of fun allowed is => ?_
        split_ifs at is
      · split_ifs at refused
        · cases refused
          exact allows_of (by simp)
        · exact ih refused

theorem endpoint_allows {path : List Char} {refusal : Refusal} (refused : Endpoint.of path = .error refusal) : Refusal.Allows refusal := by
  rw [Endpoint.of] at refused
  dsimp only at refused
  split at refused
  · cases refused
  · split at refused
    · cases refused
    · split at refused
      · split at refused
        · split at refused
          · cases refused
          · cases refused
            exact allows_of (by simp)
        · cases refused
          exact allows_of (by simp)
      · split at refused
        · cases refused
        · split at refused
          · cases refused
          · cases refused
            exact allows_of (by simp)

theorem parse_allows {lines : List (List Char)} {refusal : Refusal} (refused : parse lines = .error refusal) : Refusal.Allows refusal := by
  unfold parse at refused
  split at refused
  · cases refused
    exact allows_of (by simp)
  · split at refused
    · cases refused
      exact allows_of (by simp)
    · cases refused
      exact allows_of (by simp)
    · split at refused
      · rename_i found
        cases refused
        exact endpoint_allows found
      · cases refused

theorem framing_allows {request : Head} {refusal : Refusal} (refused : framing request = .error refusal) : Refusal.Allows refusal := by
  rw [framing] at refused
  split_ifs at refused
  · cases refused
    exact allows_of (by simp)
  · split at refused
    · cases refused
      exact allows_of (by simp)
    · cases refused

theorem declaredBody_allows {length : Length} {refusal : Refusal} (refused : declaredBody length = .error refusal) :
    Refusal.Allows refusal := by
  cases length with
  | Given declared =>
    rw [declaredBody] at refused
    split_ifs at refused
    cases refused
    exact allows_of (by simp)
  | Absent | Malformed =>
    cases refused
    exact allows_of (by simp)

theorem readBody_allows {fromSlice : List UInt8 → Except String Json} {reader : Socket.Source} {length : ℕ} {refusal : Refusal}
    (refused : readBody fromSlice reader length = .error refusal) : Refusal.Allows refusal := by
  rw [readBody] at refused
  split at refused
  · cases refused
    refine allows_of fun allowed is => ?_
    split_ifs at is
  · split at refused
    · cases refused
      exact allows_of (by simp)
    · split at refused
      · cases refused
        exact allows_of (by simp)
      · cases refused

theorem find_allows {shared : Shared} {wanted : String} {refusal : Refusal} (refused : shared.find wanted = .error refusal) :
    Refusal.Allows refusal := by
  rw [Shared.find] at refused
  split at refused
  · cases refused
  · cases refused
    exact allows_of (by simp)

theorem failure_allows (failure : Failure) : Refusal.Allows (Refusal.from failure) := by
  intro allowed is
  cases failure <;> cases is

section
variable {fromSlice : List UInt8 → Except String Json} {arrives answers : ℕ → ℕ} {shared : Shared} {request : Head}

theorem route_sound {reader : Socket.Source} {sent : List Sent} (routes : route fromSlice shared request reader = .error sent)
    (member : .Reply reply ∈ sent) : reply.Sound := by
  rw [route] at routes
  by_cases asks : request.method = "OPTIONS".toList
  · rw [if_pos asks] at routes
    cases routes
    cases List.mem_singleton.mp member
    exact preflight_sound _
  · rw [if_neg asks] at routes
    by_cases refuses : (!request.endpoint.allows request.method) = true
    · rw [if_pos refuses] at routes
      cases routes
      cases List.mem_singleton.mp member
      exact refuse_sound fun allowed is => ⟨request.endpoint,(Cause.MethodNotAllowed.inj is).symm⟩
    · rw [if_neg refuses] at routes
      cases framed : framing request with
      | error refusal =>
        rw [framed] at routes
        cases routes
        cases List.mem_singleton.mp member
        exact refuse_sound (framing_allows framed)
      | ok =>
        rw [framed] at routes
        dsimp only at routes
        cases endpoint : request.endpoint with
        | Listing | Catalogue | Properties =>
          rw [endpoint] at routes
          cases routes
          cases List.mem_singleton.mp member
          exact json_sound _ _
        | Dedicated id suffix =>
          rw [endpoint] at routes
          dsimp only at routes
          cases found : shared.find (String.ofList id) with
          | error refusal =>
            rw [found] at routes
            cases routes
            cases List.mem_singleton.mp member
            exact refuse_sound (find_allows found)
          | ok entry =>
            rw [found] at routes
            cases routes
        | Generic suffix =>
          rw [endpoint] at routes
          dsimp only at routes
          -- A caller may have been told to go on, which is no reply.
          have interim (refusal : Refusal) (allows : Refusal.Allows refusal) (among : .Reply reply ∈
              (if request.expectsContinue then [Sent.Continue] else []) ++ [.Reply (refuse refusal)]) : reply.Sound := by
            rcases List.mem_append.mp among with continues | last
            · split_ifs at continues
              · cases List.mem_singleton.mp continues
              · cases continues
            · cases List.mem_singleton.mp last
              exact refuse_sound allows
          cases declared : declaredBody request.length with
          | error refusal =>
            rw [declared] at routes
            cases routes
            cases List.mem_singleton.mp member
            exact refuse_sound (declaredBody_allows declared)
          | ok length =>
            rw [declared] at routes
            dsimp only at routes
            cases body : readBody fromSlice reader length with
            | error refusal =>
              rw [body] at routes
              cases routes
              exact interim refusal (readBody_allows body) member
            | ok parts =>
              obtain ⟨bytes,model,rest⟩ := parts
              rw [body] at routes
              dsimp only at routes
              cases found : shared.find model with
              | error refusal =>
                rw [found] at routes
                cases routes
                exact interim refusal (find_allows found) member
              | ok entry =>
                rw [found] at routes
                cases routes

/-- What a route says before it has a child is no reply. -/
theorem route_interim {reader : Socket.Source} {routed : Routed} (routes : route fromSlice shared request reader = .ok routed) :
    .Reply reply ∉ routed.interim := by
  intro member
  have authored : reply ∈ routed.interim.filterMap Sent.authored := List.mem_filterMap.mpr ⟨_,member,rfl⟩
  rw [(route_ok routes).1] at authored
  cases authored

theorem serve_sound {routed : Routed} (interim : .Reply reply ∉ routed.interim)
    (member : .Reply reply ∈ (serve arrives answers shared request routed).sent) : reply.Sound := by
  rw [serve] at member
  cases came : shared.child routed.entry with
  | none =>
    rw [came] at member
    exact absurd member interim
  | some result =>
    rw [came] at member
    cases result with
    | error failure =>
      rcases List.mem_append.mp member with before | last
      · exact absurd before interim
      · cases List.mem_singleton.mp last
        exact refuse_sound (failure_allows failure)
    | ok child =>
      rcases List.mem_append.mp member with before | last
      · rcases List.mem_append.mp before with before | proceeds
        · exact absurd before interim
        · rw [proceed] at proceeds
          split_ifs at proceeds
          · cases List.mem_singleton.mp proceeds
          · cases proceeds
      · cases List.mem_singleton.mp last

theorem answer_sound {stream : Socket.Source} (member : .Reply reply ∈ (answer fromSlice arrives answers shared stream).sent) :
    reply.Sound := by
  rw [answer] at member
  cases reads : read stream with
  | error refusal =>
    rw [reads] at member
    cases List.mem_singleton.mp member
    exact refuse_sound (readFrom_allows reads)
  | ok parts =>
    obtain ⟨lines,reader⟩ := parts
    rw [reads] at member
    dsimp only at member
    cases parses : parse lines with
    | error refusal =>
      rw [parses] at member
      cases List.mem_singleton.mp member
      exact refuse_sound (parse_allows parses)
    | ok request =>
      rw [parses] at member
      dsimp only at member
      cases routes : route fromSlice shared request reader with
      | error sent =>
        rw [routes] at member
        exact route_sound routes member
      | ok routed =>
        rw [routes] at member
        exact serve_sound (route_interim routes) member

/-- Whatever a caller sends and whatever the catalog, the machine and the children
    are, every reply of the router's own reads back as one status, the headers
    that were meant, one length, which is that of its body, and that body. -/
theorem replies_read_back (fromSlice : List UInt8 → Except String Json) (arrives answers : ℕ → ℕ) (shared : Shared)
    (stream : Socket.Source) (reply : Reply) (member : .Reply reply ∈ (answer fromSlice arrives answers shared stream).sent)
    (small : (Utf8.encode reply.body).length < 2 ^ 64) : ReadsBack reply :=
  sound_reads_back (answer_sound member) small

end

/-- A request for a path with quotation marks in it. -/
def strangeRequest : Socket.Source := ⟨Utf8.encode "GET /models/\"a\" HTTP/1.1\r\n\r\n".toList,none⟩

theorem strange_path_read_back : ReadsBack (refuse (namedNothing "/models/\"a\"".toList)) := by
  have reads : read strangeRequest = .ok (["GET /models/\"a\" HTTP/1.1".toList],⟨[],none⟩) := by decide +kernel
  have parses : parse ["GET /models/\"a\" HTTP/1.1".toList] = .error (namedNothing "/models/\"a\"".toList) := by decide +kernel
  have refused : answer noJson id id (servedBy ⟨none,none,⟨[],none⟩⟩) strangeRequest =
      ⟨[.Reply (refuse (namedNothing "/models/\"a\"".toList))],.Done⟩ := by
    rw [answer,reads]
    dsimp only
    rw [parses]
  refine replies_read_back noJson id id (servedBy ⟨none,none,⟨[],none⟩⟩) strangeRequest _ ?_ ?_
  · rw [refused]
    exact List.mem_singleton.mpr rfl
  · show (Utf8.encode (envelope (namedNothing "/models/\"a\"".toList)).text).length < 2 ^ 64
    decide +kernel

end Maestro.Proxy
