import Maestro.TwoEndpoints
import Maestro.Slots

/-!
# Only a servable request moves a model

One connection over the state it shares with the others: what is loaded is read
from the state, and moved by the call for a child and by the touch that follows
a relay.
-/
namespace Maestro.Proxy
open Socket

/-- What a connection thread shares with the others, over a state it can move. -/
structure Router (σ : Type) where
  catalog : Catalog
  loaded : σ → List String
  memory : σ → List (String × Option ℕ)
  child : Entry → σ → Option (Except Failure Child) × σ
  touch : String → σ → σ

section Connection
variable {σ : Type} (self : Router σ) (fromSlice : List UInt8 → Except String Json) (arrives answers : ℕ → ℕ)

/-- The router as a connection finds it. -/
def Router.shared (state : σ) : Shared :=
  ⟨self.catalog,self.loaded state,self.memory state,fun entry => (self.child entry state).1⟩

/-- The call for a child, the relay, and the touch that a relay is followed by
    however it ended. -/
def Router.serve (request : Head) (routed : Routed) (state : σ) : Exchange × σ :=
  (Proxy.serve arrives answers (self.shared state) request routed,
    match self.child routed.entry state with
    | (some (.ok _),after) => self.touch routed.entry.id after
    | (_,after) => after)

/-- Answers one connection, and leaves the state as it does. -/
def Router.answer (stream : Source) (state : σ) : Exchange × σ :=
  match read stream with
  | .error refusal => (⟨[.Reply (refuse refusal)],.Done⟩,state)
  | .ok (lines,reader) =>
    match parse lines with
    | .error refusal => (⟨[.Reply (refuse refusal)],.Done⟩,state)
    | .ok request =>
      match route fromSlice (self.shared state) request reader with
      | .error sent => (⟨sent,.Done⟩,state)
      | .ok routed => self.serve arrives answers request routed state

/-- The same router, with a record of the entries a child was called for. -/
def Router.logged : Router (σ × List Entry) where
  catalog := self.catalog
  loaded state := self.loaded state.1
  memory state := self.memory state.1
  child entry state := ((self.child entry state.1).1,(self.child entry state.1).2,state.2 ++ [entry])
  touch id state := (self.touch id state.1,state.2)

/-- What the caller is sent is what the state it was answered in has it sent. -/
theorem Router.answer_exchange (stream : Source) (state : σ) :
    (self.answer fromSlice arrives answers stream state).1 =
      Proxy.answer fromSlice arrives answers (self.shared state) stream := by
  unfold Router.answer Proxy.answer
  rcases read stream with refusal | ⟨lines,reader⟩
  · rfl
  · dsimp only
    rcases parse lines with refusal | request
    · rfl
    · dsimp only
      rcases route fromSlice (self.shared state) request reader with sent | routed
      · rfl
      · rfl

/-- The record keeps out of the way. -/
theorem Router.logged_answer (stream : Source) (state : σ) (calls : List Entry) :
    (self.logged.answer fromSlice arrives answers stream (state,calls)).1 =
      (self.answer fromSlice arrives answers stream state).1 ∧
    (self.logged.answer fromSlice arrives answers stream (state,calls)).2.1 =
      (self.answer fromSlice arrives answers stream state).2 := by
  have same : self.logged.shared (state,calls) = self.shared state := rfl
  unfold Router.answer
  rw [same]
  rcases read stream with refusal | ⟨lines,reader⟩
  · exact ⟨rfl,rfl⟩
  · dsimp only
    rcases parse lines with refusal | request
    · exact ⟨rfl,rfl⟩
    · dsimp only
      rcases route fromSlice (self.shared state) request reader with sent | routed
      · exact ⟨rfl,rfl⟩
      · refine ⟨rfl,?_⟩
        simp only [Router.serve,Router.logged]
        rcases self.child routed.entry state with ⟨_ | failure | child,after⟩ <;> rfl

end Connection

/-! ## What is servable -/

/-- The model a request names: in its path, or at the top level of a JSON body
    that is not too long and arrives. -/
inductive Names (fromSlice : List UInt8 → Except String Json) (request : Head) (reader : Source) : String → Prop
  | dedicated {id suffix : List Char} (at_path : request.endpoint = .Dedicated id suffix) :
    Names fromSlice request reader (String.ofList id)
  | generic {suffix : List Char} {declared : ℕ} {parsed : Json} {model : String}
    (generic : request.endpoint = .Generic suffix) (given : request.length = .Given declared)
    (small : declared ≤ MAX_BODY_BYTES) (arrived : declared ≤ reader.bytes.length)
    (parses : fromSlice (reader.bytes.take declared) = .ok parsed)
    (named : (parsed.get "model").bind Json.asStr = some model) : Names fromSlice request reader model

/-- A stream that can be served, and the entry that serves it. -/
structure Servable (fromSlice : List UInt8 → Except String Json) (catalog : Catalog) (stream : Source) (entry : Entry) :
    Prop where
  asked : ∃ lines reader request model, read stream = .ok (lines,reader) ∧ parse lines = .ok request ∧
    (request.method = "GET".toList ∨ request.method = "POST".toList) ∧ framing request = .ok () ∧
    Names fromSlice request reader model ∧ catalog.entry model = some entry

section Earned
variable {fromSlice : List UInt8 → Except String Json} {shared : Shared} {request : Head} {reader : Source}

theorem find_ok {wanted : String} {entry : Entry} : shared.find wanted = .ok entry ↔ shared.catalog.entry wanted = some entry := by
  unfold Shared.find
  cases shared.catalog.entry wanted <;> simp

/-- The methods of a child's endpoint, the preflight apart. -/
theorem child_methods {endpoint : Endpoint} (childs : endpoint.childAnswers = true) {method : List Char}
    (other : method ≠ "OPTIONS".toList) :
    endpoint.allows method = true ↔ method = "GET".toList ∨ method = "POST".toList := by
  have three : endpoint.allowed = ["GET","POST","OPTIONS"] := by
    cases endpoint <;> first | rfl | cases childs
  simp only [Endpoint.allows,three,List.any_cons,List.any_nil,Bool.or_false,Bool.or_eq_true,decide_eq_true_eq]
  constructor
  · rintro (get | post | options)
    · exact .inl get.symm
    · exact .inr post.symm
    · exact absurd options.symm other
  · rintro (get | post)
    · exact .inl get.symm
    · exact .inr (.inl post.symm)

theorem Names.childAnswers {model : String} (names : Names fromSlice request reader model) :
    request.endpoint.childAnswers = true := by
  cases names with
  | dedicated at_path => rw [at_path]; rfl
  | generic generic => rw [generic]; rfl

/-- A request names one model. -/
theorem Names.unique {model other : String} (names : Names fromSlice request reader model)
    (names' : Names fromSlice request reader other) : model = other := by
  cases names with
  | dedicated at_path =>
    cases names' with
    | dedicated at_path' =>
      rw [at_path] at at_path'
      cases at_path'
      rfl
    | generic generic =>
      rw [at_path] at generic
      cases generic
  | generic generic given small arrived parses named =>
    cases names' with
    | dedicated at_path =>
      rw [generic] at at_path
      cases at_path
    | generic _ given' _ _ parses' named' =>
      rw [given] at given'
      cases given'
      rw [parses] at parses'
      cases parses'
      rw [named] at named'
      exact Option.some.inj named'

/-- A request that earns a child is framed, and asks for the model it names. -/
theorem route_earned {routed : Routed} (earned : route fromSlice shared request reader = .ok routed) :
    (request.method = "GET".toList ∨ request.method = "POST".toList) ∧ framing request = .ok () ∧
      ∃ model, Names fromSlice request reader model ∧ shared.catalog.entry model = some routed.entry := by
  unfold route at earned
  dsimp only at earned
  by_cases options : request.method = "OPTIONS".toList
  · rw [if_pos options] at earned
    cases earned
  rw [if_neg options] at earned
  by_cases allowed : request.endpoint.allows request.method = true
  swap
  · simp [allowed] at earned
  cases framed : framing request with
  | error refusal => simp [allowed,framed] at earned
  | ok _ =>
    simp only [allowed,framed,Bool.not_true,Bool.false_eq_true,if_false] at earned
    have methods (childs : request.endpoint.childAnswers = true) := (child_methods childs options).mp allowed
    split at earned
    · cases earned
    · cases earned
    · cases earned
    · rename_i id suffix at_path
      cases found : shared.find (String.ofList id) with
      | error refusal => simp [found] at earned
      | ok entry =>
        rw [found] at earned
        cases earned
        have names : Names fromSlice request reader (String.ofList id) := .dedicated at_path
        exact ⟨methods names.childAnswers,rfl,_,names,find_ok.mp found⟩
    · rename_i suffix generic
      cases declares : declaredBody request.length with
      | error refusal => simp [declares] at earned
      | ok declared =>
        obtain ⟨given,small⟩ := declaredBody_ok_iff.mp declares
        cases body : readBody fromSlice reader declared with
        | error refusal => simp [declares,body] at earned
        | ok read =>
          obtain ⟨bytes,model,rest⟩ := read
          obtain ⟨arrived,rfl,rfl,parsed,parses,named⟩ := readBody_ok_iff.mp body
          cases found : shared.find model with
          | error refusal => simp [declares,body,found] at earned
          | ok entry =>
            simp only [declares,body,found] at earned
            cases earned
            have names : Names fromSlice request reader model := .generic generic given small arrived parses named
            exact ⟨methods names.childAnswers,rfl,_,names,find_ok.mp found⟩

/-- A framed request that names a model of the catalog earns a child of it. -/
theorem route_earns (method : request.method = "GET".toList ∨ request.method = "POST".toList)
    (framed : framing request = .ok ()) {model : String} (names : Names fromSlice request reader model) {entry : Entry}
    (carried : shared.catalog.entry model = some entry) :
    ∃ routed, route fromSlice shared request reader = .ok routed ∧ routed.entry = entry := by
  have other : request.method ≠ "OPTIONS".toList := by
    rcases method with is | is <;> rw [is] <;> decide
  have allowed : request.endpoint.allows request.method = true := (child_methods names.childAnswers other).mpr method
  have found : shared.find model = .ok entry := find_ok.mpr carried
  cases names with
  | dedicated at_path =>
    have routes : route fromSlice shared request reader = _ := route_dedicated other allowed framed at_path
    rw [found] at routes
    exact ⟨_,routes,rfl⟩
  | generic generic given small arrived parses named =>
    obtain ⟨interim,routes⟩ : ∃ interim, route fromSlice shared request reader = _ :=
      route_generic other allowed framed generic given small arrived parses named
    rw [found] at routes
    exact ⟨_,routes,rfl⟩

end Earned

section Moving
variable {σ : Type} (self : Router σ) (fromSlice : List UInt8 → Except String Json) (arrives answers : ℕ → ℕ)
  (stream : Source) (state : σ)

/-- A connection either serves a request that earned a child, or is answered by
    one reply and leaves the state as it was. -/
theorem Router.answer_cases :
    (∃ lines reader request routed, read stream = .ok (lines,reader) ∧ parse lines = .ok request ∧
      route fromSlice (self.shared state) request reader = .ok routed ∧
      self.answer fromSlice arrives answers stream state = self.serve arrives answers request routed state) ∨
    ((∀ lines reader request, read stream = .ok (lines,reader) → parse lines = .ok request →
      ∃ own, route fromSlice (self.shared state) request reader = .error own) ∧
      ∃ sent reply, self.answer fromSlice arrives answers stream state = (⟨sent,.Done⟩,state) ∧
        sent.filterMap Sent.authored = [reply] ∧ sent.flatMap Sent.response = []) := by
  unfold Router.answer
  rcases read stream with refusal | ⟨lines,reader⟩
  · right
    refine ⟨?_,_,refuse refusal,rfl,rfl,rfl⟩
    intro _ _ _ reads
    cases reads
  · dsimp only
    cases parses : parse lines with
    | error refusal =>
      right
      refine ⟨?_,_,refuse refusal,rfl,rfl,rfl⟩
      intro _ _ _ reads parses'
      cases reads
      rw [parses] at parses'
      cases parses'
    | ok request =>
      dsimp only
      cases routes : route fromSlice (self.shared state) request reader with
      | error sent =>
        right
        obtain ⟨reply,one⟩ := route_error routes
        refine ⟨?_,sent,reply,rfl,one,route_error_response routes⟩
        intro _ _ _ reads parses'
        cases reads
        rw [parses] at parses'
        cases parses'
        exact ⟨sent,routes⟩
      | ok routed =>
        left
        exact ⟨lines,reader,request,routed,rfl,parses,routes,rfl⟩

/-- A stream is servable where its request earns a child, by the entry it earns. -/
theorem servable_iff {lines : List (List Char)} {reader : Source} {request : Head} {routed : Routed}
    (reads : read stream = .ok (lines,reader)) (parses : parse lines = .ok request)
    (routes : route fromSlice (self.shared state) request reader = .ok routed) (entry : Entry) :
    Servable fromSlice self.catalog stream entry ↔ entry = routed.entry := by
  obtain ⟨method,framed,model,names,carried⟩ := route_earned routes
  constructor
  · rintro ⟨_,_,_,other,reads',parses',_,_,names',carried'⟩
    rw [reads] at reads'
    cases reads'
    rw [parses] at parses'
    cases parses'
    rw [names.unique names'] at carried
    exact Option.some.inj (carried'.symm.trans carried)
  · rintro rfl
    exact ⟨lines,reader,request,model,reads,parses,method,framed,names,carried⟩

/-- A child is called for once, for the entry that serves a servable stream; any
    other stream calls for none, leaves the state as it was, and is answered by
    one reply of the router's own. -/
theorem only_servable (calls : List Entry) :
    let after := self.logged.answer fromSlice arrives answers stream (state,calls)
    (∃ entry, Servable fromSlice self.catalog stream entry ∧ after.2.2 = calls ++ [entry]) ∨
    ((∀ entry, ¬ Servable fromSlice self.catalog stream entry) ∧ after.2 = (state,calls) ∧
      (∃ reply, after.1.replies = [reply]) ∧ after.1.response = [] ∧ after.1.ending = .Done) := by
  intro after
  rcases self.logged.answer_cases fromSlice arrives answers stream (state,calls) with
    ⟨lines,reader,request,routed,reads,parses,routes,is⟩ | ⟨none,sent,reply,is,one,silent⟩
  · left
    have servable := (servable_iff self fromSlice stream state reads parses routes routed.entry).mpr rfl
    refine ⟨routed.entry,servable,?_⟩
    have serves : after = self.logged.serve arrives answers request routed (state,calls) := is
    rw [serves]
    simp only [Router.serve,Router.logged]
    rcases self.child routed.entry state with ⟨_ | failure | child,moved⟩ <;> rfl
  · right
    have answered : after = (⟨sent,.Done⟩,(state,calls)) := is
    rw [answered]
    refine ⟨?_,rfl,⟨reply,one⟩,silent,rfl⟩
    rintro entry ⟨lines,reader,request,model,reads,parses,method,framed,names,carried⟩
    obtain ⟨routed,routes,_⟩ : ∃ routed, route fromSlice (self.shared state) request reader = .ok routed ∧
      routed.entry = entry := route_earns method framed names carried
    obtain ⟨own,refuses⟩ := none lines reader request reads parses
    have both := refuses.symm.trans routes
    cases both

end Moving

/-! ## Connected to the slots -/

/-- The router over its slots: what the call for an entry meets is told by
    `call`, and the touch is made at the moment `relayed`. -/
def ofSlots (router : Slots.Router) (machine : Launch.Machine) (call : Entry → Slots.Call Child)
    (relayed : Slots.Moment Child) : Router (Slots.Table Child) where
  catalog := router.catalog
  loaded := Slots.snapshot router.catalog fun entry _ => entry.id
  memory := Slots.snapshot router.catalog fun entry held => (entry.id,held.measured.largestMib)
  child entry slots := router.child machine entry (call entry) slots
  touch id slots := Function.update (relayed.others slots) id (Slots.touched relayed.now (relayed.others slots id))

/-- No slot moves for a stream that names no model of the catalog. -/
theorem unservable_keeps_slots (router : Slots.Router) (machine : Launch.Machine) (call : Entry → Slots.Call Child)
    (relayed : Slots.Moment Child) (fromSlice : List UInt8 → Except String Json) (arrives answers : ℕ → ℕ) {stream : Source}
    (unservable : ∀ entry, ¬ Servable fromSlice router.catalog stream entry) (slots : Slots.Table Child) :
    ((ofSlots router machine call relayed).answer fromSlice arrives answers stream slots).2 = slots := by
  rcases (ofSlots router machine call relayed).answer_cases fromSlice arrives answers stream slots with
    ⟨lines,reader,request,routed,reads,parses,routes,_⟩ | ⟨_,sent,reply,is,_⟩
  · exact absurd ((servable_iff _ fromSlice stream slots reads parses routes routed.entry).mpr rfl) (unservable _)
  · rw [is]

end Maestro.Proxy
