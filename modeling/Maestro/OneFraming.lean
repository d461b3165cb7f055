import Maestro.Servable

/-!
# One framing, agreed by router and child

What is sent on to a child declares its lengths as they were received, with a
body as long as the last of them. A preflight and a method that the endpoint does
not answer are settled before any framing is looked at.
-/
namespace Maestro.Proxy
open Socket

section
variable (fromSlice : List UInt8 → Except String Json) (shared : Shared)

/-- Whatever body arrives in full behind the head, every length sent to the child
    is the number of body bytes it is sent; and a request with a length that
    cannot be read is refused for that. -/
structure OneFraming (lines : List (List Char)) (head : Head) : Prop where
  agree : ∀ reader routed, route fromSlice shared head reader = .ok routed → SentInFull head routed.buffered routed.reader →
    ∀ upstream, ∀ value ∈ lengthsOf (sentHeaders (head.rewrite upstream)),
      parseLength value = some (bodySent head routed.buffered routed.reader)
  refused : (∃ value ∈ lengthsOf (headersOf lines), parseLength value = none) →
    ∃ message, framing head = .error ⟨.MalformedLength,message⟩ ∧
      ∀ reader, route fromSlice shared head reader = .error [.Reply (refuse ⟨.MalformedLength,message⟩)]

/-- Some body that arrives in full has the request sent on to a child. -/
structure SentOn (catalog : Catalog) (head : Head) : Prop where
  method : head.method = "GET".toList ∨ head.method = "POST".toList
  whole : head.chunked = false
  named : ∃ reader model entry, head.bodyBytes ≤ reader.bytes.length ∧ Names fromSlice head reader model ∧
    catalog.entry model = some entry

/-- When the framing is one: every length can be read and is the same; or every
    length can be read and nothing of the request reaches a child; or the last
    one cannot be read, and neither the method nor a chunked body settles the
    answer before. -/
def Agreeing (catalog : Catalog) (lines : List (List Char)) (head : Head) : Prop :=
  let lengths := lengthsOf (headersOf lines)
  (∃ bytes, ∀ value ∈ lengths, parseLength value = some bytes) ∨
  ((∀ value ∈ lengths, parseLength value ≠ none) ∧ ¬ SentOn fromSlice catalog head) ∨
  ((∃ value, lengths.getLast? = some value ∧ parseLength value = none) ∧ head.chunked = false ∧
    head.method ≠ "OPTIONS".toList ∧ head.endpoint.allows head.method = true)

end

section
variable {fromSlice : List UInt8 → Except String Json} {shared : Shared} {head : Head} {reader : Source}

/-- A body that was read first came in full, and is what followed the head, as
    far as it was declared. -/
theorem route_buffered {routed : Routed} (earned : route fromSlice shared head reader = .ok routed) {bytes : List UInt8}
    (buffered : routed.buffered = some bytes) : bytes = reader.bytes.take head.bodyBytes ∧ head.bodyBytes ≤ reader.bytes.length := by
  obtain ⟨method,framed,model,names,carried⟩ := route_earned earned
  have other : head.method ≠ "OPTIONS".toList := by
    rcases method with is | is <;> rw [is] <;> decide
  have allowed : head.endpoint.allows head.method = true := (child_methods names.childAnswers other).mpr method
  cases names with
  | dedicated at_path =>
    have routes : route fromSlice shared head reader = _ := route_dedicated other allowed framed at_path
    rw [earned,find_ok.mpr carried] at routes
    rw [Except.ok.inj routes] at buffered
    cases buffered
  | generic generic given small arrived parses named =>
    obtain ⟨interim,routes⟩ : ∃ interim, route fromSlice shared head reader = _ :=
      route_generic other allowed framed generic given small arrived parses named
    rw [earned,find_ok.mpr carried] at routes
    rw [Except.ok.inj routes] at buffered
    cases buffered
    rw [Head.bodyBytes,given]
    exact ⟨rfl,arrived⟩

/-- A body that arrives behind the head in full is forwarded in full. -/
theorem route_in_full {routed : Routed} (earned : route fromSlice shared head reader = .ok routed)
    (enough : head.bodyBytes ≤ reader.bytes.length) : SentInFull head routed.buffered routed.reader := by
  cases buffered : routed.buffered with
  | none =>
    rw [route_reader earned buffered]
    exact enough
  | some bytes =>
    rw [(route_buffered earned buffered).1]
    exact List.length_take_of_le enough

/-- What framing refuses is refused with that, where the method is one to be
    answered. -/
theorem route_refused {refusal : Refusal} (other : head.method ≠ "OPTIONS".toList)
    (allowed : head.endpoint.allows head.method = true) (refused : framing head = .error refusal) (reader : Source) :
    route fromSlice shared head reader = .error [.Reply (refuse refusal)] := by
  rw [route,if_neg other]
  simp only [allowed,refused,Bool.not_true,Bool.false_eq_true,if_false]

/-- Nothing is refused for a length before its method was found to be one that
    the endpoint answers. -/
theorem refused_method {message : String} (refused : route fromSlice shared head reader =
    .error [.Reply (refuse ⟨.MalformedLength,message⟩)]) :
    head.method ≠ "OPTIONS".toList ∧ head.endpoint.allows head.method = true := by
  have status {reply : Reply} (same : route fromSlice shared head reader = .error [.Reply reply]) : reply.status = 400 := by
    rw [refused] at same
    cases same
    rfl
  rw [route] at status
  by_cases options : head.method = "OPTIONS".toList
  · rw [if_pos options] at status
    exact absurd (status rfl) (by simp [preflight])
  rw [if_neg options] at status
  refine ⟨options,?_⟩
  by_contra unanswered
  rw [if_pos (by simpa using unanswered)] at status
  exact absurd (status rfl) (by simp [refuse,methodNotAllowed,Cause.status,Cause.describe])

/-- A request that is routed with its body in full is one that some body has sent
    on. -/
theorem sentOn_of_route {routed : Routed} (routes : route fromSlice shared head reader = .ok routed)
    (full : SentInFull head routed.buffered routed.reader) : SentOn fromSlice shared.catalog head := by
  obtain ⟨method,framed,model,names,carried⟩ := route_earned routes
  refine ⟨method,(framing_ok_iff.mp framed).1,reader,model,routed.entry,?_,names,carried⟩
  cases buffered : routed.buffered with
  | none =>
    rw [buffered,route_reader routes buffered] at full
    exact full
  | some bytes => exact (route_buffered routes buffered).2

end

section
variable {fromSlice : List UInt8 → Except String Json} {shared : Shared} {lines : List (List Char)} {head : Head}
  (parses : parse lines = .ok head)
include parses

/-- A body that arrives in full and reaches a child shows that its lengths are
    one. -/
theorem OneFraming.same_length (plain : ∀ line ∈ lines, '\n' ∉ line) (one : OneFraming fromSlice shared lines head)
    (sentOn : SentOn fromSlice shared.catalog head) (accepted : framing head = .ok ()) :
    ∃ bytes, ∀ value ∈ lengthsOf (headersOf lines), parseLength value = some bytes := by
  obtain ⟨reader,model,entry,enough,names,carried⟩ := sentOn.named
  obtain ⟨routed,routes,_⟩ : ∃ routed, route fromSlice shared head reader = .ok routed ∧ routed.entry = entry :=
    route_earns sentOn.method accepted names carried
  have full := route_in_full routes enough
  refine ⟨head.bodyBytes,fun value member => ?_⟩
  let somewhere : SocketAddr := ⟨[],by simp⟩
  have sent : value ∈ lengthsOf (sentHeaders (head.rewrite somewhere)) := by
    rw [lengthsOf_sent parses plain,(parse_ok parses).1]
    exact member
  rw [one.agree reader routed routes full somewhere value sent,bodySent_in_full full]

/-- Where the lengths are one, or nothing is sent on, what reaches a child has the
    length it declares. -/
theorem Agreeing.forwarded (agreeing : Agreeing fromSlice shared.catalog lines head) {reader : Source} {routed : Routed}
    (routes : route fromSlice shared head reader = .ok routed) (full : SentInFull head routed.buffered routed.reader)
    {value : List Char} (member : value ∈ lengthsOf (headersOf lines)) :
    parseLength value = some (bodySent head routed.buffered routed.reader) := by
  rw [bodySent_in_full full]
  rcases agreeing with ⟨bytes,same⟩ | ⟨_,unsent⟩ | ⟨bad,_⟩
  · obtain ⟨last,is⟩ : ∃ last, (lengthsOf (headersOf lines)).getLast? = some last :=
      ⟨_,List.getLast?_eq_some_getLast (List.ne_nil_of_mem member)⟩
    rw [bodyBytes_of_last parses is (same last (List.mem_of_getLast? is))]
    exact same value member
  · exact absurd (sentOn_of_route routes full) unsent
  · obtain ⟨_,framed,_⟩ := route_earned routes
    obtain ⟨kept,is⟩ := (malformed_iff_last parses).mpr bad
    exact absurd is ((framing_ok_iff.mp framed).2 kept)

end

/-- The router and the child agree on one framing exactly where the lengths do, or
    where none of them comes to matter. -/
theorem one_framing_iff (fromSlice : List UInt8 → Except String Json) (shared : Shared) {lines : List (List Char)} {head : Head}
    (plain : ∀ line ∈ lines, '\n' ∉ line) (parses : parse lines = .ok head) :
    OneFraming fromSlice shared lines head ↔ Agreeing fromSlice shared.catalog lines head := by
  have last_bad := malformed_iff_last parses
  constructor
  · intro one
    by_cases bad : ∃ value ∈ lengthsOf (headersOf lines), parseLength value = none
    · obtain ⟨message,malformed,answered⟩ := one.refused bad
      obtain ⟨whole,length⟩ := framing_malformed_iff.mp ⟨message,malformed⟩
      exact .inr (.inr ⟨last_bad.mp length,whole,refused_method (answered ⟨[],none⟩)⟩)
    have read : ∀ value ∈ lengthsOf (headersOf lines), parseLength value ≠ none :=
      fun value member is => bad ⟨value,member,is⟩
    by_cases sentOn : SentOn fromSlice shared.catalog head
    · have accepted : framing head = .ok () := by
        refine framing_ok_iff.mpr ⟨sentOn.whole,fun value is => ?_⟩
        obtain ⟨last,member,none⟩ := last_bad.mp ⟨value,is⟩
        exact read last (List.mem_of_getLast? member) none
      exact .inl (one.same_length parses plain sentOn accepted)
    · exact .inr (.inl ⟨read,sentOn⟩)
  · intro agreeing
    constructor
    · intro reader routed routes full upstream value member
      rw [lengthsOf_sent parses plain,(parse_ok parses).1] at member
      exact agreeing.forwarded parses routes full member
    · rintro ⟨value,member,bad⟩
      rcases agreeing with ⟨bytes,same⟩ | ⟨read,_⟩ | ⟨last,whole,other,allowed⟩
      · rw [same value member] at bad
        cases bad
      · exact absurd bad (read value member)
      · obtain ⟨message,refused⟩ := framing_malformed_iff.mpr ⟨whole,last_bad.mpr last⟩
        exact ⟨message,refused,route_refused other allowed refused⟩

/-- A length given twice, the same both times, is one framing. -/
theorem repeated_length_agrees :
    let lines := ["POST /models/m/v1/echo HTTP/1.1".toList,"Content-Length: 5".toList,"content-length:05".toList]
    ∃ head, parse lines = .ok head ∧ OneFraming noJson (servedBy ⟨none,none,⟨[],none⟩⟩) lines head := by
  intro lines
  refine ⟨_,rfl,(one_framing_iff _ _ (by decide) rfl).mpr (.inl ⟨5,?_⟩)⟩
  decide

/-- Two lengths that differ are both sent on, with a body as long as the last. -/
theorem two_lengths_sent :
    let lines := ["POST /models/m/v1/echo HTTP/1.1".toList,"Content-Length: 50".toList,"Content-Length: 5".toList]
    ∃ head, parse lines = .ok head ∧ ¬ OneFraming noJson (servedBy ⟨none,none,⟨[],none⟩⟩) lines head := by
  intro lines
  refine ⟨_,rfl,fun one => ?_⟩
  have sent := one.agree ⟨[1,2,3,4,5],none⟩ _ rfl (Nat.le_refl 5) ⟨[],by simp⟩ "50".toList (by decide)
  revert sent
  decide

end Maestro.Proxy
