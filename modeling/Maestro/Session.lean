import Maestro.ImpossibleStart
import Maestro.Servable

/-!
# A session on models that are loaded

Connections are answered one after the other, each meeting the references and
the processes of its own moments. As long as each asks for a model that is loaded
and whose process is alive, no slot changes its child, and what a caller receives
is the answer of that child, whole, or nothing.
-/
namespace Maestro.Proxy
open Socket Slots

/-- One connection: what arrives on it and in what sizes, and what its call for
    a child and the touch after its relay meet. -/
structure Visit where
  machine : Launch.Machine
  call : Entry → Call Child
  relayed : Moment Child
  stream : Source
  arrives : ℕ → ℕ
  answers : ℕ → ℕ

section
variable (router : Slots.Router) (fromSlice : List UInt8 → Except String Json)

/-- What the caller of a connection is sent, and what the slots hold then. -/
def Visit.answer (visit : Visit) (slots : Table Child) : Exchange × Table Child :=
  (ofSlots router visit.machine visit.call visit.relayed).answer fromSlice visit.arrives visit.answers visit.stream slots

/-- Connections one after the other. -/
def session : List Visit → Table Child → List Exchange × Table Child
  | [], slots => ([],slots)
  | visit :: visits, slots =>
    ((visit.answer router fromSlice slots).1 :: (session visits (visit.answer router fromSlice slots).2).1,
      (session visits (visit.answer router fromSlice slots).2).2)

/-- The model a connection asks for, if any, is loaded, and its process is read
    from or alive when the call looks. -/
def Visit.Warm (visit : Visit) (slots : Table Child) : Prop :=
  ∀ entry, Servable fromSlice router.catalog visit.stream entry → ∃ held, slots entry.id = some held ∧
    ((visit.call entry).fast.strong held.child ≠ 1 ∨ (visit.call entry).fast.check held.child = .Running)

/-- What a caller receives: one reply of the router's own, or of the child in the
    slot of the model asked for the whole answer or nothing. -/
structure Visit.Heard (visit : Visit) (slots : Table Child) (exchange : Exchange) : Prop where
  own : (∀ entry, ¬ Servable fromSlice router.catalog visit.stream entry) →
    (∃ reply, exchange.replies = [reply]) ∧ exchange.response = [] ∧ exchange.ending = .Done
  relayed : ∀ entry, Servable fromSlice router.catalog visit.stream entry → ∃ held, slots entry.id = some held ∧
    exchange.replies = [] ∧ (exchange.ending = .Done → exchange.response = held.child.peer.answers.bytes) ∧
    (exchange.ending ≠ .Done → exchange.response = []) ∧
    (held.child.peer.refuses = none → held.child.peer.takes = none → visit.stream.failure = none → exchange.ending = .Done)

end

/-! ## The slots -/

theorem same_refl (slots : Table Child) : Same slots slots := fun _ => rfl

theorem found_of_same {before after : Table Child} (same : Same before after) {id : String} {held : Loaded Child}
    (is : before id = some held) : ∃ kept, after id = some kept ∧ kept.child = held.child := by
  have child := same id
  rw [is,Option.map_some,Option.map_eq_some_iff] at child
  exact child

theorem same_update {slots : Table Child} {id : String} {slot : Slot Child}
    (child : slot.map Loaded.child = (slots id).map Loaded.child) : Same slots (Function.update slots id slot) := by
  intro other
  by_cases this : other = id
  · rw [this,Function.update_self,child]
  · rw [Function.update_of_ne this]

theorem touched_child (now : ℕ) (slot : Slot Child) : (touched now slot).map Loaded.child = slot.map Loaded.child := by
  cases slot <;> rfl

/-- A child that is loaded and alive is handed out, and stays where it is. -/
theorem running_warm {moment : Moment Child} {id : String} {slots : Table Child} {held : Loaded Child} (is : slots id = some held)
    (alive : moment.strong held.child ≠ 1 ∨ moment.check held.child = .Running) :
    (running moment id slots).1 = some held.child ∧ Same slots (running moment id slots).2 := by
  obtain ⟨kept,found,child⟩ := found_of_same (moment.same slots) is
  have lives : exited moment.strong moment.check kept = none := by
    rw [exited,child]
    rcases alive with read | runs
    · rw [if_neg read]
    · rw [runs,ite_self]
  have hands : liveChild moment.strong moment.check moment.now (some kept) =
      (some kept.child,some { kept with lastUsed := moment.now }) := by
    rw [liveChild,lives]
  rw [running,found,hands]
  refine ⟨congrArg some child,(moment.same slots).trans (same_update ?_)⟩
  rw [found]
  rfl

section
variable {router : Slots.Router} {fromSlice : List UInt8 → Except String Json} {visit : Visit} {slots before after : Table Child}
  {exchange : Exchange}

theorem Visit.Warm.of_same (warm : visit.Warm router fromSlice before) (same : Same before after) :
    visit.Warm router fromSlice after := by
  intro entry servable
  obtain ⟨held,is,alive⟩ := warm entry servable
  obtain ⟨kept,found,child⟩ := found_of_same same is
  rw [← child] at alive
  exact ⟨kept,found,alive⟩

theorem Visit.Heard.of_same (heard : visit.Heard router fromSlice after exchange) (same : Same before after) :
    visit.Heard router fromSlice before exchange := by
  refine ⟨heard.own,fun entry servable => ?_⟩
  obtain ⟨held,is,all⟩ := heard.relayed entry servable
  have back : Same after before := fun id => (same id).symm
  obtain ⟨kept,found,child⟩ := found_of_same back is
  rw [← child] at all
  exact ⟨kept,found,all⟩

/-! ## One connection -/

/-- A request for a model that is loaded and alive is relayed to its child. -/
theorem serve_warm {lines : List (List Char)} {reader : Source} {request : Head} {routed : Routed} {held : Loaded Child}
    (reads : read visit.stream = .ok (lines,reader))
    (routes : route fromSlice ((ofSlots router visit.machine visit.call visit.relayed).shared slots) request reader = .ok routed)
    (hands : ((ofSlots router visit.machine visit.call visit.relayed).child routed.entry slots).1 = some (.ok held.child)) :
    let exchange := ((ofSlots router visit.machine visit.call visit.relayed).serve visit.arrives visit.answers request routed slots).1
    exchange.replies = [] ∧ (exchange.ending = .Done → exchange.response = held.child.peer.answers.bytes) ∧
      (exchange.ending ≠ .Done → exchange.response = []) ∧
      (held.child.peer.refuses = none → held.child.peer.takes = none → visit.stream.failure = none → exchange.ending = .Done) := by
  intro exchange
  have shared : ((ofSlots router visit.machine visit.call visit.relayed).shared slots).child routed.entry =
      some (.ok held.child) := hands
  obtain ⟨response,replies,done⟩ := serve_child visit.arrives visit.answers shared (route_ok routes)
  obtain ⟨accepts,whole,nothing⟩ := run_spec visit.arrives visit.answers request held.child routed.buffered routed.reader
  refine ⟨replies,fun ended => ?_,fun failed => ?_,fun connects takes stays => done.mpr (accepts.mpr ⟨connects,?_,?_⟩)⟩
  · exact response.trans (whole (done.mp ended))
  · exact response.trans (nothing fun fine => failed (done.mpr fine))
  · intro room error limited
    rw [takes] at limited
    cases limited
  · intro unread _
    obtain ⟨_,_,_,_,ended⟩ := readFrom_ok (Nat.zero_le _) reads
    rw [route_reader routes unread]
    exact ended.failure.trans stays

theorem warm_visit (warm : visit.Warm router fromSlice slots) : Same slots (visit.answer router fromSlice slots).2 ∧
    visit.Heard router fromSlice slots (visit.answer router fromSlice slots).1 := by
  let proxy := ofSlots router visit.machine visit.call visit.relayed
  rcases proxy.answer_cases fromSlice visit.arrives visit.answers visit.stream slots with
    ⟨lines,reader,request,routed,reads,parses,routes,is⟩ | ⟨none,sent,reply,is,one,silent⟩
  · have serves := servable_iff proxy fromSlice visit.stream slots reads parses routes
    obtain ⟨held,occupied,alive⟩ := warm routed.entry ((serves routed.entry).mpr rfl)
    obtain ⟨found,same⟩ := running_warm occupied alive
    have hands : proxy.child routed.entry slots =
        (some (.ok held.child),(running (visit.call routed.entry).fast routed.entry.id slots).2) := by
      change router.child visit.machine routed.entry (visit.call routed.entry) slots = _
      rw [Slots.Router.child]
      rcases runs : running (visit.call routed.entry).fast routed.entry.id slots with ⟨child,after⟩
      rw [runs] at found
      cases found
      rfl
    rw [Visit.answer,is]
    refine ⟨?_,fun unservable => absurd ((serves routed.entry).mpr rfl) (unservable routed.entry),fun entry servable => ?_⟩
    · rw [Router.serve,hands]
      exact same.trans ((visit.relayed.same _).trans (same_update (touched_child _ _)))
    · obtain rfl := (serves entry).mp servable
      exact ⟨held,occupied,serve_warm reads routes (congrArg Prod.fst hands)⟩
  · rw [Visit.answer,is]
    refine ⟨same_refl slots,fun _ => ⟨⟨reply,one⟩,silent,rfl⟩,?_⟩
    rintro entry ⟨lines,reader,request,model,reads,parses,method,framed,names,carried⟩
    obtain ⟨routed,routes,_⟩ : ∃ routed, route fromSlice (proxy.shared slots) request reader = .ok routed ∧ routed.entry = entry :=
      route_earns method framed names carried
    obtain ⟨own,refuses⟩ := none lines reader request reads parses
    have both := refuses.symm.trans routes
    cases both

/-- Whatever connections come, in whatever order, as long as each asks for what
    is loaded and alive: every slot keeps its child, and a caller hears the router
    where it asks for nothing servable, and otherwise the whole answer of the child
    of the model it asked for, or nothing where the relay to that child failed. -/
theorem warm_session (router : Slots.Router) (fromSlice : List UInt8 → Except String Json) (visits : List Visit)
    (slots : Table Child) (warm : ∀ visit ∈ visits, visit.Warm router fromSlice slots) :
    Same slots (session router fromSlice visits slots).2 ∧
      List.Forall₂ (fun visit exchange => visit.Heard router fromSlice slots exchange) visits
        (session router fromSlice visits slots).1 := by
  induction visits generalizing slots with
  | nil => exact ⟨same_refl slots,.nil⟩
  | cons visit visits ih =>
    obtain ⟨same,heard⟩ := warm_visit (warm visit List.mem_cons_self)
    have still : ∀ other ∈ visits, other.Warm router fromSlice (visit.answer router fromSlice slots).2 :=
      fun other member => (warm other (List.mem_cons_of_mem visit member)).of_same same
    obtain ⟨later,rest⟩ := ih _ still
    refine ⟨same.trans later,.cons heard ?_⟩
    exact rest.imp fun other exchange hears => hears.of_same same

end

/-! ## Two requests to one model -/

/-- A child that answers. -/
def healthyChild : Child :=
  ⟨⟨"127.0.0.1:41234".toList,loopback_plain⟩,⟨none,none,⟨Utf8.encode "HTTP/1.1 200 OK\r\n".toList,none⟩⟩⟩

/-- A request for the health of the model, while nobody else does anything. -/
def healthVisit : Visit := ⟨⟨fun _ => true,none⟩,fun _ => .quiet healthyChild,.quiet (fun _ => 1) 2,healthRequest,id,id⟩

def healthRouter : Slots.Router := ⟨oneModel,⟨none⟩,0,⟨"/bin/llama-server"⟩,"/models"⟩

def healthSlots : Table Child := fun _ => some ⟨healthyChild,0,⟨none,none⟩⟩

theorem healthy_session : Same healthSlots (session healthRouter noJson [healthVisit,healthVisit] healthSlots).2 ∧
    List.Forall₂ (fun visit exchange => visit.Heard healthRouter noJson healthSlots exchange) [healthVisit,healthVisit]
      (session healthRouter noJson [healthVisit,healthVisit] healthSlots).1 := by
  refine warm_session healthRouter noJson [healthVisit,healthVisit] healthSlots fun visit member entry _ => ?_
  obtain rfl : visit = healthVisit := by simpa using member
  exact ⟨_,rfl,.inr rfl⟩

end Maestro.Proxy
