import Maestro.DeadChildren
import Maestro.Locks
import Maestro.Reply

/-!
# What a listing of the slots says of each

The catalogue joins two walks over the slots: which are occupied, and what their
children were measured to hold. Either looks at one slot after the other, and
the slots change between any two looks.
-/
namespace Maestro

/-! ## A walk over a table that changes -/

section Walks
variable {ι κ β T : Type} {key : ι → κ} {project : ι → β → List T} {seen : List (κ → β)} {found : κ → β}
  {all rest : List ι} {result : List T} {item : ι} {table : κ → β} {done : List ι}

/-- What a walk has put together: the items it is done with, each as it was in
    one of the tables seen. -/
structure Walk (key : ι → κ) (project : ι → β → List T) (seen : List (κ → β)) (found : κ → β) (all rest done : List ι)
    (result : List T) : Prop where
  all_eq : all = done ++ rest
  result_eq : result = done.flatMap fun item => project item (found (key item))
  seen : ∀ item ∈ done, ∃ table ∈ seen, table (key item) = found (key item)

theorem Walk.start : Walk key project seen found all all [] [] := ⟨rfl,rfl,nofun⟩

/-- A table that is seen besides. -/
theorem Walk.beside (walk : Walk key project seen found all rest done result) (table : κ → β) :
    Walk key project (table :: seen) found all rest done result := by
  refine ⟨walk.all_eq,walk.result_eq,fun item member => ?_⟩
  obtain ⟨other,there,same⟩ := walk.seen item member
  exact ⟨other,List.mem_cons_of_mem _ there,same⟩

/-- A look at the next item; items have keys of their own. -/
theorem Walk.look [DecidableEq κ] (distinct : (all.map key).Nodup) (walk : Walk key project seen found all (item :: rest) done result)
    (there : table ∈ seen) :
    Walk key project seen (Function.update found (key item) (table (key item))) all rest (done ++ [item])
      (result ++ project item (table (key item))) := by
  have other : ∀ earlier ∈ done, key earlier ≠ key item := by
    intro earlier member same
    rw [walk.all_eq,List.map_append,List.nodup_append] at distinct
    exact distinct.2.2 _ (List.mem_map_of_mem member) _ (List.mem_map_of_mem List.mem_cons_self) same
  have kept : ∀ earlier ∈ done, Function.update found (key item) (table (key item)) (key earlier) = found (key earlier) :=
    fun earlier member => Function.update_of_ne (other earlier member) ..
  refine ⟨by rw [walk.all_eq,List.append_assoc]; rfl,?_,fun looked member => ?_⟩
  · rw [List.flatMap_append,walk.result_eq,List.flatMap_singleton,Function.update_self]
    congr 1
    exact List.flatMap_congr fun earlier member => by rw [kept earlier member]
  · rcases List.mem_append.mp member with earlier | now
    · rw [kept looked earlier]
      exact walk.seen looked earlier
    · rw [List.mem_singleton.mp now,Function.update_self]
      exact ⟨table,there,rfl⟩

/-- A walk that is over is done with every item. -/
theorem Walk.complete (walk : Walk key project seen found all [] done result) : done = all := by
  rw [walk.all_eq,List.append_nil]

theorem Walk.seen_each (walk : Walk key project seen found all [] done result) (known : item ∈ all) :
    ∃ table ∈ seen, table (key item) = found (key item) :=
  walk.seen item (walk.complete ▸ known)

end Walks

namespace Views
open Slots (Loaded Slot Table)
open Threads

/-! ## What an element of the reply says -/

/-- One element of the catalogue. -/
def element (entry : Entry) (loaded : List String) (held : List (String × Option ℕ)) : Json :=
  .obj
    [("architecture",.obj [("input_modalities",.arr (entry.accepts.map .str))]),
     ("id",.str entry.id),
     ("memory",.obj
       [("declared_mib",.nat entry.memoryEstimateMib),
        ("held_mib",((held.lookup entry.id).join).elim .null .nat)]),
     ("meta",.obj [("n_ctx",.nat entry.contextSize)]),
     ("object",.str "model"),
     ("owned_by",.str "maestro-llamacpp"),
     ("source",.str "preset"),
     ("status",.obj [("failed",.bool false),("value",.str (if entry.id ∈ loaded then "loaded" else "unloaded"))])]

/-- The elements of the reply, in the order of the catalog. -/
def elements (catalog : Catalog) (loaded : List String) (held : List (String × Option ℕ)) : List Json :=
  (catalog.entries.filter Entry.generates).map fun entry => element entry loaded held

theorem catalogue_elements (catalog : Catalog) (loaded : List String) (held : List (String × Option ℕ)) (headOnly : Bool) :
    Proxy.catalogue catalog loaded held headOnly =
      Proxy.json (.obj [("data",.arr (elements catalog loaded held)),("object",.str "list")]) headOnly := rfl

def statusValue (element : Json) : Option Json := (element.get "status").bind fun status => status.get "value"

def heldMib (element : Json) : Option Json := (element.get "memory").bind fun memory => memory.get "held_mib"

/-- The measurement of the child in a slot, if there is one that was measured. -/
def measuredMib (slot : Slot Child) : Option ℕ := slot.bind fun held => held.measured.largestMib

/-- An element says of its slot what is so in this table. -/
def Describes (element : Json) (slots : Table Child) : Prop := ∃ id, element.get "id" = some (.str id) ∧
  statusValue element = some (.str (if (slots id).isSome then "loaded" else "unloaded")) ∧
  heldMib element = some ((measuredMib (slots id)).elim .null .nat)

/-! ## A record of the two walks -/

/-- The tables of slots since a thread's latest listing began, and what its two
    walks have found in each slot. -/
structure View where
  seen : List (Table Child)
  first : Table Child
  second : Table Child

def View.start (seen : List (Table Child)) : View := ⟨seen,fun _ => none,fun _ => none⟩

/-- The view after a step of its own thread, which only then has looked at a
    slot when it has gone on to the next one. -/
def View.looked (self : View) (slots : Table Child) (job job' : Job) : View :=
  match job, job' with
  | .Idle, .Listing _ _ => .start []
  | .Listing (entry :: rest) _, .Listing left _ =>
    if left = rest then { self with first := Function.update self.first entry.id (slots entry.id) } else self
  | .Holding _ (entry :: rest) _, .Holding _ left _ =>
    if left = rest then { self with second := Function.update self.second entry.id (slots entry.id) } else self
  | _, _ => self

section Record
variable {Tid : Type} [DecidableEq Tid]

/-- A step of the system, as every thread's view sees it. -/
def viewing (before : State Tid) (event : Event Tid) (after : State Tid) (views : Tid → View) : Tid → View := fun t =>
  let view := match event with
    | .Act u _ => if u = t then (views t).looked before.shared.slots (before.jobs t) (after.jobs t) else views t
    | _ => views t
  { view with seen := after.shared.slots :: view.seen }

/-- The router with a record of its listings. -/
def viewed (config : Config) (Tid : Type) [DecidableEq Tid] : Transition.System (State Tid × (Tid → View)) (Event Tid) :=
  (router config Tid).recording (fun _ => .start [(State.start Tid).shared.slots]) viewing

end Record

/-! ## The lists are what the walks have found -/

section Lists
variable {config : Config} {view : View} {slots : Table Child} {job job' : Job}

abbrev Listed (config : Config) (view : View) (rest : List Entry) (loaded : List String) : Prop :=
  ∃ done, Walk Entry.id (fun entry (slot : Slot Child) => (slot.map fun _ => entry.id).toList) view.seen view.first
    config.catalog.entries rest done loaded

abbrev Held (config : Config) (view : View) (rest : List Entry) (held : List (String × Option ℕ)) : Prop :=
  ∃ done, Walk Entry.id (fun entry (slot : Slot Child) => (slot.map fun held => (entry.id,held.measured.largestMib)).toList)
    view.seen view.second config.catalog.entries rest done held

/-- What a thread's view records of the listing it is about. -/
def Walked (config : Config) (view : View) : Job → Prop
  | .Listing rest loaded => Listed config view rest loaded
  | .Holding loaded rest held => Listed config view [] loaded ∧ Held config view rest held
  | _ => True

/-- One more table is seen. -/
theorem Walked.beside (walked : Walked config view job) (slots : Table Child) :
    Walked config { view with seen := slots :: view.seen } job := by
  cases job with
  | Listing rest loaded =>
    obtain ⟨done,walk⟩ := walked
    exact ⟨done,walk.beside slots⟩
  | Holding loaded rest held =>
    obtain ⟨⟨listed,first⟩,done,second⟩ := walked
    exact ⟨⟨listed,first.beside slots⟩,done,second.beside slots⟩
  | _ => trivial

variable {Tid : Type} {input : Input} {s s' : Shared Tid} {t : Tid}

/-- An admission is no listing, and leads to none. -/
theorem walked_of_admits {request : Request} {phase : Phase} (branch : PhaseBranch config s request input phase s' job') :
    Walked config view job' := by
  cases branch <;> trivial

/-- A look of the thread itself finds what the table it has seen holds. -/
theorem Walked.look (walked : Walked config view job) (now : s.slots ∈ view.seen) (branch : Branch config s t input job s' job') :
    Walked config (view.looked s.slots job job') job' := by
  cases branch with
  | lists => exact ⟨[],.start⟩
  | reads input entry rest loaded =>
    obtain ⟨done,walk⟩ := walked
    rw [View.looked,if_pos rfl]
    exact ⟨_,walk.look config.catalog.distinct now⟩
  | catalogues loaded => exact ⟨walked,[],.start⟩
  | holds input loaded entry rest held =>
    obtain ⟨listed,done,walk⟩ := walked
    rw [View.looked,if_pos rfl]
    exact ⟨listed,_,walk.look config.catalog.distinct now⟩
  | admits _ _ _ _ _ branch => exact walked_of_admits branch
  | _ => trivial

/-- Where a thread does not go on, it has not looked. -/
theorem View.looked_same (self : View) (slots : Table Child) (job : Job) : self.looked slots job job = self := by
  cases job with
  | Listing rest loaded =>
    cases rest with
    | nil => rfl
    | cons entry rest => simp [View.looked]
  | Holding loaded rest held =>
    cases rest with
    | nil => rfl
    | cons entry rest => simp [View.looked]
  | _ => rfl

end Lists

section Runs
variable {Tid : Type} [DecidableEq Tid] {config : Config} {allowed : State Tid × (Tid → View) → Event Tid → Prop}
  {both : State Tid × (Tid → View)}

/-- Every view has seen the slots as they are, and tells how its thread's lists
    came about. -/
def Told (config : Config) (both : State Tid × (Tid → View)) : Prop :=
  ∀ t, both.1.shared.slots ∈ (both.2 t).seen ∧ Walked config (both.2 t) (both.1.jobs t)

/-- A thread whose job a step leaves as it was sees one more table. -/
theorem viewing_same {before after : State Tid} {views : Tid → View} {event : Event Tid} {t : Tid}
    (same : after.jobs t = before.jobs t) :
    viewing before event after views t = { views t with seen := after.shared.slots :: (views t).seen } := by
  cases event with
  | Act u input =>
    rw [viewing,same]
    simp only [View.looked_same,ite_self]
  | _ => rfl

theorem Told.step {before after : State Tid} {views views' : Tid → View} {event : Event Tid} (told : Told config (before,views))
    (steps : (viewed config Tid).step (before,views) event = some (after,views')) : Told config (after,views') := by
  obtain ⟨state,stepped,is⟩ := Option.map_eq_some_iff.mp steps
  cases is
  intro t
  obtain ⟨now,walked⟩ := told t
  refine ⟨List.mem_cons_self,?_⟩
  have beside (same : after.jobs t = before.jobs t) : Walked config (viewing before event after views t) (after.jobs t) := by
    rw [viewing_same same,same]
    exact walked.beside _
  rcases step_cases stepped with ⟨_,_,jobs⟩ | ⟨_,_,_,jobs,_⟩ | ⟨u,input,job,rfl,ran,jobs⟩
  · exact beside (congrFun jobs t)
  · exact beside (congrFun jobs t)
  · by_cases own : u = t
    · subst own
      have is : after.jobs u = job := by rw [jobs,Function.update_self]
      have looked := walked.look now (step_branch ran)
      simp only [viewing,if_true]
      rw [is]
      exact looked.beside _
    · exact beside (by rw [jobs,Function.update_of_ne (Ne.symm own)])

theorem told (reached : Transition.Reaches (viewed config Tid) allowed both) : Told config both := by
  refine reached.invariant (fun t => ⟨List.mem_singleton_self _,trivial⟩) fun before event after _ told _ steps => ?_
  exact told.step steps

/-! ## What the joined lists say of one slot -/

theorem mem_loaded_iff {view : View} {loaded : List String} (listed : Listed config view [] loaded) {entry : Entry}
    (known : entry ∈ config.catalog.entries) : entry.id ∈ loaded ↔ (view.first entry.id).isSome = true := by
  obtain ⟨done,walk⟩ := listed
  rw [walk.result_eq,walk.complete,List.mem_flatMap]
  constructor
  · rintro ⟨other,_,there⟩
    obtain ⟨held,found,same⟩ := Option.map_eq_some_iff.mp (Option.mem_toList.mp there)
    rw [← same,found]
    rfl
  · intro occupied
    obtain ⟨held,found⟩ := Option.isSome_iff_exists.mp occupied
    exact ⟨entry,known,by rw [found]; exact List.mem_singleton_self _⟩

theorem lookup_other {slots : Table Child} {id other : String} (differ : id ≠ other) :
    (((slots other).map fun held => (other,held.measured.largestMib)).toList).lookup id = none := by
  cases slots other with
  | none => rfl
  | some held => simpa using differ

theorem lookup_absent {slots : Table Child} {entries : List Entry} {id : String} (absent : id ∉ entries.map Entry.id) :
    (entries.flatMap fun entry => ((slots entry.id).map fun held => (entry.id,held.measured.largestMib)).toList).lookup id =
      none := by
  induction entries with
  | nil => rfl
  | cons first rest ih =>
    rw [List.map_cons,List.mem_cons,not_or] at absent
    rw [List.flatMap_cons,List.lookup_append,lookup_other absent.1,ih absent.2]
    rfl

/-- What a walk wrote down under the identifier of one entry is what it found
    in that entry's slot. -/
theorem lookup_flatMap {slots : Table Child} {entries : List Entry} (distinct : (entries.map Entry.id).Nodup) {entry : Entry}
    (known : entry ∈ entries) :
    ((entries.flatMap fun entry => ((slots entry.id).map fun held => (entry.id,held.measured.largestMib)).toList).lookup
      entry.id).join = measuredMib (slots entry.id) := by
  induction entries with
  | nil => cases known
  | cons first rest ih =>
    rw [List.map_cons,List.nodup_cons] at distinct
    rw [List.flatMap_cons,List.lookup_append]
    rcases List.mem_cons.mp known with rfl | later
    · rw [lookup_absent distinct.1]
      cases slots entry.id with
      | none => rfl
      | some held => simp [measuredMib]
    · have differ : entry.id ≠ first.id := fun same => distinct.1 (same ▸ List.mem_map_of_mem later)
      rw [lookup_other differ,Option.none_or,ih distinct.2 later]

theorem join_lookup {view : View} {held : List (String × Option ℕ)} (holds : Held config view [] held) {entry : Entry}
    (known : entry ∈ config.catalog.entries) : (held.lookup entry.id).join = measuredMib (view.second entry.id) := by
  obtain ⟨done,walk⟩ := holds
  rw [walk.result_eq,walk.complete,lookup_flatMap config.catalog.distinct known]

/-! ## Where the two looks agree -/

/-- The two looks at a slot found a child in it both or neither, or nothing to
    measure: the second one a child without a measurement, or, where it found
    none, such a child was there at some time. -/
def Agree (view : View) (id : String) : Prop :=
  match view.first id, view.second id with
  | none, some held => held.measured.largestMib = none
  | some _, none => ∃ slots ∈ view.seen, ∃ held, slots id = some held ∧ held.measured.largestMib = none
  | _, _ => True

/-- Where nothing is said to be held, the child was not measured. -/
theorem unmeasured {held : Loaded Child} (measured : (measuredMib (some held)).elim Json.null .nat = .null) :
    held.measured.largestMib = none := by
  rw [measuredMib,Option.bind_some] at measured
  cases known : held.measured.largestMib with
  | none => rfl
  | some mib =>
    rw [known] at measured
    cases measured

/-- Some table that was seen is as the two looks together say, if they agree. -/
theorem agree_iff {view : View} {id : String} (first : ∃ slots ∈ view.seen, slots id = view.first id)
    (second : ∃ slots ∈ view.seen, slots id = view.second id) :
    (∃ slots ∈ view.seen, ((view.first id).isSome = true ↔ (slots id).isSome = true) ∧
      (measuredMib (view.second id)).elim Json.null .nat = (measuredMib (slots id)).elim .null .nat) ↔ Agree view id := by
  obtain ⟨early,early_seen,early_is⟩ := first
  obtain ⟨late,late_seen,late_is⟩ := second
  rw [Agree]
  cases was : view.first id with
  | none =>
    cases now : view.second id with
    | none => exact ⟨fun _ => trivial,fun _ => ⟨early,early_seen,by rw [early_is,was]; exact ⟨Iff.rfl,rfl⟩⟩⟩
    | some held =>
      constructor
      · rintro ⟨slots,_,occupied,measured⟩
        have empty : slots id = none := by simpa using occupied
        rw [empty] at measured
        exact unmeasured measured
      · intro unknown
        refine ⟨early,early_seen,by rw [early_is,was],?_⟩
        rw [early_is,was,measuredMib,Option.bind_some,unknown]
        rfl
  | some before =>
    cases now : view.second id with
    | none =>
      constructor
      · rintro ⟨slots,there,occupied,measured⟩
        obtain ⟨held,found⟩ := Option.isSome_iff_exists.mp (occupied.mp rfl)
        rw [found] at measured
        exact ⟨slots,there,held,found,unmeasured measured.symm⟩
      · rintro ⟨slots,there,held,found,unknown⟩
        refine ⟨slots,there,by rw [found]; exact Iff.rfl,?_⟩
        rw [found,measuredMib,measuredMib,Option.bind_some,unknown]
        rfl
    | some held => exact ⟨fun _ => trivial,fun _ => ⟨late,late_seen,by rw [late_is,now]; exact ⟨Iff.rfl,rfl⟩⟩⟩

theorem describes_iff {entry : Entry} {loaded : List String} {held : List (String × Option ℕ)} {slots : Table Child} :
    Describes (element entry loaded held) slots ↔ (entry.id ∈ loaded ↔ (slots entry.id).isSome = true) ∧
      (((held.lookup entry.id).join).elim Json.null .nat) = (measuredMib (slots entry.id)).elim .null .nat := by
  have status : statusValue (element entry loaded held) = some (.str (if entry.id ∈ loaded then "loaded" else "unloaded")) := rfl
  have memory : heldMib (element entry loaded held) = some (((held.lookup entry.id).join).elim .null .nat) := rfl
  constructor
  · rintro ⟨id,named,said,measured⟩
    cases named
    rw [status] at said
    rw [memory] at measured
    refine ⟨?_,Option.some.inj measured⟩
    by_cases inside : entry.id ∈ loaded <;> cases occupied : (slots entry.id).isSome <;> simp_all
  · rintro ⟨same,measured⟩
    refine ⟨entry.id,rfl,?_,?_⟩
    · rw [status,if_congr same rfl rfl]
    · rw [memory,measured]

theorem describes_iff_agree {config : Config} {state : State Tid} {views : Tid → View}
    (reached : Transition.Reaches (viewed config Tid) allowed (state,views)) {t : Tid} {loaded : List String}
    {held : List (String × Option ℕ)} (finished : state.jobs t = .Holding loaded [] held) {entry : Entry}
    (known : entry ∈ config.catalog.entries) :
    (∃ slots ∈ (views t).seen, Describes (element entry loaded held) slots) ↔ Agree (views t) entry.id := by
  have walked : Walked config (views t) (.Holding loaded [] held) := finished ▸ (told reached t).2
  obtain ⟨listed,holds⟩ := walked
  have looks := agree_iff (listed.choose_spec.seen_each known) (holds.choose_spec.seen_each known)
  rw [← looks]
  refine exists_congr fun slots => and_congr_right fun _ => ?_
  rw [describes_iff,mem_loaded_iff listed known,join_lookup holds known]

/-- In every run, each element of a catalogue describes its slot as it was at
    one time of the request exactly where the two looks at it agree. -/
theorem catalogue_describes_iff {config : Config} {state : State Tid} {views : Tid → View}
    (reached : Transition.Reaches (viewed config Tid) allowed (state,views)) (t : Tid) (loaded : List String)
    (held : List (String × Option ℕ)) (finished : state.jobs t = .Holding loaded [] held) :
    (∀ element ∈ elements config.catalog loaded held, ∃ slots ∈ (views t).seen, Describes element slots) ↔
      ∀ entry ∈ config.catalog.entries, entry.generates = true → Agree (views t) entry.id := by
  constructor
  · intro describes entry known generates
    refine (describes_iff_agree reached finished known).mp (describes _ ?_)
    exact List.mem_map_of_mem (List.mem_filter.mpr ⟨known,generates⟩)
  · intro agree element member
    obtain ⟨entry,among,rfl⟩ := List.mem_map.mp member
    obtain ⟨known,generates⟩ := List.mem_filter.mp among
    exact (describes_iff_agree reached finished known).mpr (agree entry known generates)

end Runs

/-! ## A model that comes or goes between the two looks -/

/-- The two lists of a catalogue that is ready to be answered. -/
def joined : Job → Option (List String × List (String × Option ℕ))
  | .Holding loaded [] held => some (loaded, held)
  | _ => none

theorem holding_of_joined {job : Job} {loaded : List String} {held : List (String × Option ℕ)}
    (is : joined job = some (loaded,held)) : job = .Holding loaded [] held := by
  cases job with
  | Holding first rest second =>
    cases rest with
    | nil => cases is; rfl
    | cons => cases is
  | _ => cases is

/-- The walk over which slots are occupied, and the one over what they hold. -/
def firstWalk : List (Event Bool) := [.List,.Go,.Go].map (.Act true)
def secondWalk : List (Event Bool) := [.Catalogue,.Go,.Go].map (.Act true)

/-- A request loads the model, which is measured at 8 MiB. -/
def loads : List (Event Bool) := spawning false ++ serving 8 false

/-- It ends, and the router is stopped. -/
def stops : List (Event Bool) := [.Hangup,.Go,.Stop ["m"],.Go,.Go].map (.Act false)

/-- The catalogue of a router on which nothing happens meanwhile. -/
theorem quiet_catalogue_describes : ∃ state views, Transition.Reaches (viewed oneModel Bool) (fun _ _ => True) (state,views) ∧
    state.jobs true = .Holding ["m"] [] [("m",some 8)] ∧
    ∀ element ∈ elements oneModel.catalog ["m"] [("m",some 8)], ∃ slots ∈ (views true).seen, Describes element slots := by
  have passes : ((viewed oneModel Bool).run (fun _ _ => true) (viewed oneModel Bool).initial
      (loads ++ firstWalk ++ secondWalk)).any (fun both => joined (both.1.jobs true) = some (["m"],[("m",some 8)]) ∧
        ((both.2 true).first "m").isSome ∧ ((both.2 true).second "m").isSome) = true := by
    decide +kernel
  obtain ⟨⟨state,views⟩,reached,checked⟩ : ∃ both, Transition.Reaches (viewed oneModel Bool) (fun _ _ => True) both ∧ _ :=
    Transition.exists_of_run (fun _ _ _ => trivial) passes
  obtain ⟨finished,first,second⟩ := of_decide_eq_true checked
  have answers := holding_of_joined finished
  refine ⟨state,views,reached,answers,(catalogue_describes_iff reached true _ _ answers).mpr fun entry known _ => ?_⟩
  obtain ⟨before,was⟩ := Option.isSome_iff_exists.mp first
  obtain ⟨now,is⟩ := Option.isSome_iff_exists.mp second
  rw [List.mem_singleton.mp known,Agree,show model.id = "m" from rfl,was,is]
  trivial

/-- A catalogue that is ready, one of whose elements describes its slot at no
    time since the listing began. -/
def Misdescribes (config : Config) (state : State Bool) (views : Bool → View) : Prop :=
  ∃ loaded held, state.jobs true = .Holding loaded [] held ∧
    ∃ element ∈ elements config.catalog loaded held, ∀ slots ∈ (views true).seen, ¬ Describes element slots

theorem misdescribes {state : State Bool} {views : Bool → View}
    (reached : Transition.Reaches (viewed oneModel Bool) (fun _ _ => True) (state,views)) {loaded : List String}
    {held : List (String × Option ℕ)} (finished : joined (state.jobs true) = some (loaded,held))
    (differ : ¬ Agree (views true) "m") : Misdescribes oneModel state views := by
  have answers := holding_of_joined finished
  refine ⟨loaded,held,answers,element model loaded held,List.mem_singleton_self _,fun slots there describes => differ ?_⟩
  exact (describes_iff_agree reached answers (List.mem_singleton_self model)).mp ⟨slots,there,describes⟩

/-- A measured model that is unloaded between the two looks is loaded with
    nothing held; one that is loaded between them is unloaded and holds 8 MiB. -/
theorem joined_looks_misdescribe :
    (∃ state views, Transition.Reaches (viewed oneModel Bool) (fun _ _ => True) (state,views) ∧
      joined (state.jobs true) = some (["m"],[]) ∧ Misdescribes oneModel state views) ∧
    ∃ state views, Transition.Reaches (viewed oneModel Bool) (fun _ _ => True) (state,views) ∧
      joined (state.jobs true) = some ([],[("m",some 8)]) ∧ Misdescribes oneModel state views := by
  have goes : ((viewed oneModel Bool).run (fun _ _ => true) (viewed oneModel Bool).initial
      (loads ++ firstWalk ++ stops ++ secondWalk)).any (fun both => joined (both.1.jobs true) = some (["m"],[]) ∧
        ((both.2 true).first "m").isSome ∧ (both.2 true).second "m" = none ∧
        ∀ slots ∈ (both.2 true).seen, ∀ held ∈ slots "m", held.measured.largestMib ≠ none) = true := by
    decide +kernel
  have comes : ((viewed oneModel Bool).run (fun _ _ => true) (viewed oneModel Bool).initial
      (firstWalk ++ loads ++ secondWalk)).any (fun both => joined (both.1.jobs true) = some ([],[("m",some 8)]) ∧
        (both.2 true).first "m" = none ∧
        ∃ held ∈ (both.2 true).second "m", held.measured.largestMib ≠ none) = true := by
    decide +kernel
  constructor
  · obtain ⟨⟨state,views⟩,reached,checked⟩ : ∃ both, Transition.Reaches (viewed oneModel Bool) (fun _ _ => True) both ∧ _ :=
      Transition.exists_of_run (fun _ _ _ => trivial) goes
    obtain ⟨finished,first,second,measured⟩ := of_decide_eq_true checked
    refine ⟨state,views,reached,finished,misdescribes reached finished fun agree => ?_⟩
    obtain ⟨before,was⟩ := Option.isSome_iff_exists.mp first
    rw [Agree,was,second] at agree
    obtain ⟨slots,there,held,found,unknown⟩ := agree
    exact measured slots there held found unknown
  · obtain ⟨⟨state,views⟩,reached,checked⟩ : ∃ both, Transition.Reaches (viewed oneModel Bool) (fun _ _ => True) both ∧ _ :=
      Transition.exists_of_run (fun _ _ _ => trivial) comes
    obtain ⟨finished,first,held,second,measured⟩ := of_decide_eq_true checked
    refine ⟨state,views,reached,finished,misdescribes reached finished fun agree => ?_⟩
    rw [Agree,first,second] at agree
    exact measured agree

end Views
end Maestro
