import Maestro.IdleSweep
import Maestro.Launching
import Maestro.Store

/-!
# The router is a store of models

Behind the slots, the references and the locks there is a store: what a slot
holds is what is held, what the threads were handed is what is lent. Every step
of every thread is an operation of that store or two, or none, and one that goes
with what the thread is doing and what it finds: so a model is taken out only
where it has exited, for an admission, by a sweep, or at a stop.
-/
namespace Maestro.Threads
open Slots (Loaded Slot Table)
open Store (May Op Policy Reason)
open Transition (Spec)

/-! ## What the router holds, seen as a store -/

/-- One where the thread was handed the child. -/
def handings (job : Job) (child : Child) : ℕ := if job.handed = some child then 1 else 0

def Life.isGone : Life → Bool
  | .Exited _ | .Reaped _ => true
  | _ => false

section Facts
variable {Tid : Type} {s s' : Shared Tid} {c : Child}

/-- Where no live child was found in a slot that is not empty, it had exited. -/
theorem running_gone {id : String} {held : Loaded Child} (there : s.slots id = some held)
    (ran : s.running id = (none,s')) : ∃ status, s.check held.child = .Exited status := by
  rcases Slots.liveChild_cases s.strong s.check s.clock (s.slots id) with
    ⟨empty,_⟩ | ⟨other,status,here,_,gone,_⟩ | ⟨other,here,_,is⟩
  · rw [there] at empty
    cases empty
  · rw [there] at here
    cases here
    exact ⟨status,gone⟩
  · rw [Shared.running,is] at ran
    cases ran

theorem gone_of_check {status : String} (gone : s.check c = .Exited status) : (s.life c).isGone = true := by
  rw [Shared.check] at gone
  cases is : s.life c with
  | Unborn =>
    rw [is] at gone
    cases gone
  | Running =>
    rw [is] at gone
    cases gone
  | _ => rfl

/-- Waiting for a process that has exited ends nothing. -/
theorem stopped_gone {life : Life} (gone : life.isGone = true) : life.stopped.isGone = true ∧ (life.stopped ≠ .Unborn ↔ life ≠ .Unborn) := by
  cases life with
  | Unborn => cases gone
  | Running => cases gone
  | Exited status => exact ⟨rfl,by simp [Life.stopped]⟩
  | Reaped status => exact ⟨rfl,by simp [Life.stopped]⟩

/-- The lives of the processes once one that has exited was waited for. -/
theorem waited_same (gone : (s.life c).isGone = true) (life : s'.life = Function.update s.life c (s.life c).stopped) (d : Child) :
    (s'.life d ≠ .Unborn ↔ s.life d ≠ .Unborn) ∧ (s'.life d).isGone = (s.life d).isGone := by
  rw [life]
  by_cases this : d = c
  · rw [this,Function.update_self]
    exact ⟨(stopped_gone gone).2,(stopped_gone gone).1.trans gone.symm⟩
  · rw [Function.update_of_ne this]
    exact ⟨Iff.rfl,rfl⟩

/-- Dropping the last reference ends a process that was started, and touches no
    other. -/
theorem ended_last (born : s.life c ≠ .Unborn) (last : s.strong c = 1) (d : Child) :
    ((s.release c).life d ≠ .Unborn ↔ s.life d ≠ .Unborn) ∧
      (((s.release c).life d).isGone = true ↔ d = c ∨ (s.life d).isGone = true) := by
  by_cases this : d = c
  · rw [this,release_life_last last,Ne,stopped_unborn]
    refine ⟨Iff.rfl,iff_of_true ?_ (.inl rfl)⟩
    cases is : s.life c with
    | Unborn => exact absurd is born
    | _ => rfl
  · rw [release_life_ne this]
    exact ⟨Iff.rfl,(or_iff_right this).symm⟩

end Facts

/-! ## What a thread does to the store -/

/-- The entry whose live child the next step looks for. -/
def Job.looks : Job → Option String
  | .Running request => some request.entry.id
  | .Admitting request .Rechecking => some request.entry.id
  | _ => none

/-- What a step may do to the store, by what its thread is doing and what it
    finds there. -/
inductive Doing {Tid : Type} (config : Config) (s : Shared Tid) : Job → Op String Child → Prop
  | starts (request : Request) (second : Bool) :
    Doing config s (.Admitting request (.Starting second)) (.Starts request.entry.id (s.fresh request.entry.id))
  | fails (request : Request) (child : Child) (failure : Failure) (again : Bool) :
    Doing config s (.Admitting request (.Abandoning child failure again)) (.Fails child)
  | loads (request : Request) (loaded : Loaded Child) :
    Doing config s (.Admitting request (.Placing loaded)) (.Loads request.entry.id loaded.child)
  | lends {job : Job} {id : String} {held : Loaded Child} (looks : job.looks = some id) (there : s.slots id = some held) :
    Doing config s job (.Lends id held.child)
  | returns {job : Job} {child : Child} (handed : job.handed = some child) : Doing config s job (.Returns child)
  -- A child that has exited is taken out by whoever looks for one, or by a sweep.
  | misses {job : Job} {id : String} {held : Loaded Child} {status : String} (looks : job.looks = some id)
      (there : s.slots id = some held) (gone : s.check held.child = .Exited status) :
    Doing config s job (.Takes id held.child .Exited)
  | buries {id : String} {rest : List String} {named : List (String × Option String)} {held : Loaded Child} {status : String}
      (there : s.slots id = some held) (gone : s.check held.child = .Exited status) :
    Doing config s (.Sweeping .Exited (id :: rest) named) (.Takes id held.child .Exited)
  | unloads {request : Request} {named rest : List String} {id : String} {held : Loaded Child} (there : s.slots id = some held)
      (idle : s.strong held.child ≤ 1) :
    Doing config s (.Admitting request (.Unloading named (id :: rest))) (.Takes id held.child .Room)
  | expires {now : ℕ} {id : String} {rest : List String} {named : List (String × Option String)} {held : Loaded Child} {duration : ℕ}
      (there : s.slots id = some held) (idle : s.strong held.child ≤ 1) (window : config.idleWindow.duration = some duration)
      (old : stale now held.lastUsed duration = true) :
    Doing config s (.Sweeping (.Idle now) (id :: rest) named) (.Takes id held.child .Idle)
  -- A stop takes out whatever it finds, read from or not.
  | clears {called : ℕ} {id : String} {rest : List String} {taken : List Child} {held : Loaded Child}
      (there : s.slots id = some held) : Doing config s (.Clearing called (id :: rest) taken) (.Takes id held.child .Stop)
  | ends {job : Job} {child : Child} (holds : child ∈ job.holds) (last : s.strong child = 1) : Doing config s job (.Ends child)

/-- No thread has a process exit. -/
theorem Doing.no_exit {Tid : Type} {config : Config} {s : Shared Tid} {job : Job} {child : Child} :
    ¬ Doing config s job (.Exits child) := by
  intro does
  cases does

section View
variable {Tid : Type} [Fintype Tid]

/-- The store behind what the threads share and what they are doing. -/
def viewOf (shared : Shared Tid) (jobs : Tid → Job) : Store.State String Child where
  held id := (shared.slots id).map Loaded.child
  lent := Holders.held handings jobs
  starting := shared.admission.bind fun t => (jobs t).starting
  started child := shared.life child ≠ .Unborn
  gone child := (shared.life child).isGone = true

def State.view (state : State Tid) : Store.State String Child := viewOf state.shared state.jobs

/-- Whoever is starting a process holds the admission lock. -/
def Locked (admission : Option Tid) (jobs : Tid → Job) : Prop :=
  ∀ t, (jobs t).starting.isSome = true → admission = some t

variable {shared : Shared Tid} {jobs : Tid → Job} {c : Child}

theorem handings_of_not (nothing : ∀ t, (jobs t).handed ≠ some c) : Holders.held handings jobs c = 0 :=
  Holders.held_eq_zero_iff.mpr fun t => if_neg (nothing t)

/-- What nobody has a reference to has been lent to nobody. -/
theorem handings_le_refs (job : Job) (c : Child) : handings job c ≤ refs job c := by
  rw [handings]
  split_ifs with handed
  · rw [refs,Job.handed_holds handed,List.count_singleton_self]
  · exact Nat.zero_le _

theorem starting_view (locked : Locked shared.admission jobs) {t : Tid} (starting : (jobs t).starting = some c) :
    (viewOf shared jobs).starting = some c := by
  change shared.admission.bind _ = _
  rw [locked t (by rw [starting]; rfl)]
  exact starting

theorem starting_of_view (starting : (viewOf shared jobs).starting = some c) : ∃ t, (jobs t).starting = some c := by
  obtain ⟨t,_,is⟩ := Option.bind_eq_some_iff.mp starting
  exact ⟨t,is⟩

theorem starting_view_none (nobody : ∀ t, (jobs t).starting = none) : (viewOf shared jobs).starting = none := by
  change shared.admission.bind _ = _
  cases shared.admission with
  | none => rfl
  | some t => exact nobody t

end View

/-! ## What one step of a thread is to the store -/

section Steps
variable {Tid : Type} [Fintype Tid] [DecidableEq Tid] {config : Config} {reasons : Reason → Prop}

/-- What the router is run for, as a store: its residents stay. -/
def storePolicy (config : Config) (reasons : Reason → Prop) : Policy String :=
  ⟨fun id => ∃ entry ∈ config.catalog.entries, entry.id = id ∧ entry.residency = .Resident,reasons⟩

variable {s s' : Shared Tid} {jobs : Tid → Job} {t : Tid} {job job' : Job} {c : Child}

/-- Operations that a thread may do lead from one state of the store to another. -/
def Explained (config : Config) (reasons : Reason → Prop) (s : Shared Tid) (job : Job) (a b : Store.State String Child) : Prop :=
  ∃ ops, (May (storePolicy config reasons)).Runs a ops b ∧ ∀ op ∈ ops, Doing config s job op

omit [Fintype Tid] [DecidableEq Tid] in
theorem Explained.same {a b : Store.State String Child} (same : b = a) : Explained config reasons s job a b :=
  ⟨[],same ▸ .nil,fun op member => (by cases member)⟩

omit [Fintype Tid] [DecidableEq Tid] in
theorem Explained.one {a b : Store.State String Child} {op : Op String Child} (may : May (storePolicy config reasons) a op b)
    (does : Doing config s job op) : Explained config reasons s job a b := by
  refine ⟨[op],.one may,?_⟩
  intro other member
  rwa [List.mem_singleton.mp member]

omit [Fintype Tid] [DecidableEq Tid] in
theorem Explained.trans {a b c : Store.State String Child} (first : Explained config reasons s job a b)
    (second : Explained config reasons s job b c) : Explained config reasons s job a c := by
  obtain ⟨ops,runs,does⟩ := first
  obtain ⟨more,goes,also⟩ := second
  exact ⟨ops ++ more,runs.append goes,fun op member => (List.mem_append.mp member).elim (does op) (also op)⟩

/-- The children in the slots after one slot was changed. -/
theorem children_update (slots : Table Child) (id : String) (slot : Slot Child) :
    (fun other => (Function.update slots id slot other).map Loaded.child) =
      Function.update (fun other => (slots other).map Loaded.child) id (slot.map Loaded.child) :=
  Function.comp_update (Option.map Loaded.child) slots id slot

theorem Stamped.children {before after : Table Child} (stamped : Stamped before after) :
    (fun id => (after id).map Loaded.child) = fun id => (before id).map Loaded.child := by
  funext id
  have both := congrArg (Option.map Prod.fst) (stamped id)
  rw [Option.map_map,Option.map_map] at both
  exact both

theorem lent_same (handed : job'.handed = (jobs t).handed) :
    Holders.held handings (Function.update jobs t job') = Holders.held handings jobs := by
  funext c
  have moved := Holders.held_update handings jobs t job' c
  have same : handings job' c = handings (jobs t) c := by rw [handings,handed,handings]
  omega

/-- A thread that was handed nothing is handed a child. -/
theorem lent_more (nothing : (jobs t).handed = none) (handed : job'.handed = some c) :
    Holders.held handings (Function.update jobs t job') =
      Function.update (Holders.held handings jobs) c (Holders.held handings jobs c + 1) := by
  funext other
  have moved := Holders.held_update handings jobs t job' other
  have was : handings (jobs t) other = 0 := if_neg (by simp [nothing])
  by_cases this : other = c
  · subst this
    have now : handings job' other = 1 := if_pos handed
    rw [Function.update_self]
    omega
  · have now : handings job' other = 0 := if_neg (by rw [handed]; exact fun same => this (Option.some.inj same).symm)
    rw [Function.update_of_ne this]
    omega

/-- A thread gives back what it was handed. -/
theorem lent_less (handed : (jobs t).handed = some c) (nothing : job'.handed = none) :
    ∃ count, Holders.held handings jobs c = count + 1 ∧
      Holders.held handings (Function.update jobs t job') = Function.update (Holders.held handings jobs) c count := by
  have own : handings (jobs t) c = 1 := if_pos handed
  have most := Holders.le_held handings jobs t c
  refine ⟨Holders.held handings jobs c - 1,by omega,?_⟩
  funext other
  have moved := Holders.held_update handings jobs t job' other
  have now : handings job' other = 0 := if_neg (by simp [nothing])
  by_cases this : other = c
  · subst this
    rw [Function.update_self]
    omega
  · have was : handings (jobs t) other = 0 := if_neg (by rw [handed]; exact fun same => this (Option.some.inj same).symm)
    rw [Function.update_of_ne this]
    omega

/-- The thread that moves goes on starting what it was starting. -/
theorem starting_same (before : Locked s.admission jobs) (after : Locked s'.admission (Function.update jobs t job'))
    (same : job'.starting = (jobs t).starting) :
    (viewOf s' (Function.update jobs t job')).starting = (viewOf s jobs).starting := by
  have each (u : Tid) : (Function.update jobs t job' u).starting = (jobs u).starting := by
    by_cases this : u = t
    · rw [this,Function.update_self,same]
    · rw [Function.update_of_ne this]
  by_cases some_thread : ∃ u c, (jobs u).starting = some c
  · obtain ⟨u,c,starting⟩ := some_thread
    rw [starting_view before starting,starting_view after ((each u).trans starting)]
  · have nobody (u : Tid) : (jobs u).starting = none := by
      by_contra starting
      obtain ⟨c,is⟩ := Option.ne_none_iff_exists'.mp starting
      exact some_thread ⟨u,c,is⟩
    rw [starting_view_none nobody,starting_view_none fun u => (each u).trans (nobody u)]

/-- Nothing that the store knows of has changed. -/
theorem view_same (before : Locked s.admission jobs) (after : Locked s'.admission (Function.update jobs t job'))
    (slots : Stamped s.slots s'.slots) (life : s'.life = s.life) (handed : job'.handed = (jobs t).handed)
    (starting : job'.starting = (jobs t).starting) : viewOf s' (Function.update jobs t job') = viewOf s jobs := by
  refine Store.State.ext slots.children (lent_same handed) (starting_same before after starting) ?_ ?_
  · change (fun c => s'.life c ≠ .Unborn) = _
    rw [life]
    rfl
  · change (fun c => (s'.life c).isGone = true) = _
    rw [life]
    rfl

end Steps

/-! ## The operations -/

section Operations
variable {Tid : Type} [Fintype Tid] [DecidableEq Tid] {config : Config} {reasons : Reason → Prop} {before : State Tid} {t : Tid}
  {s' : Shared Tid} {job' : Job} {c : Child}
  (locked : Locked before.shared.admission before.jobs) (locked' : Locked s'.admission (Function.update before.jobs t job'))
include locked locked'

/-- A child in its slot is handed out. -/
theorem lends_seen {id : String} {loaded : Loaded Child} (there : before.shared.slots id = some loaded)
    (slots : Stamped before.shared.slots s'.slots) (life : s'.life = before.shared.life) (nothing : (before.jobs t).handed = none)
    (handed : job'.handed = some loaded.child) (starting : job'.starting = (before.jobs t).starting) :
    May (storePolicy config reasons) before.view (.Lends id loaded.child) (viewOf s' (Function.update before.jobs t job')) := by
  have held : before.view.held id = some loaded.child := by
    change (before.shared.slots id).map Loaded.child = _
    rw [there,Option.map_some]
  refine cast (congrArg _ ?_) (May.Lends id loaded.child held)
  refine Store.State.ext slots.children.symm (lent_more nothing handed).symm (starting_same locked locked' starting).symm ?_ ?_
  · change _ = fun c => s'.life c ≠ .Unborn
    rw [life]
    rfl
  · change _ = fun c => (s'.life c).isGone = true
    rw [life]
    rfl

/-- A child is taken out of its slot. -/
theorem takes_seen {id : String} {loaded : Loaded Child} (why : Reason) (there : before.shared.slots id = some loaded)
    (slots : s'.slots = Function.update before.shared.slots id none)
    (born : ∀ c, s'.life c ≠ .Unborn ↔ before.shared.life c ≠ .Unborn)
    (gone : ∀ c, (s'.life c).isGone = (before.shared.life c).isGone) (handed : job'.handed = (before.jobs t).handed)
    (starting : job'.starting = (before.jobs t).starting) (reason : reasons why)
    (may : (storePolicy config reasons).Takes before.view id loaded.child why) :
    May (storePolicy config reasons) before.view (.Takes id loaded.child why) (viewOf s' (Function.update before.jobs t job')) := by
  have held : before.view.held id = some loaded.child := by
    change (before.shared.slots id).map Loaded.child = _
    rw [there,Option.map_some]
  refine cast (congrArg _ ?_) (May.Takes id loaded.child why held reason may)
  refine Store.State.ext ?_ (lent_same handed).symm (starting_same locked locked' starting).symm ?_ ?_
  · change _ = fun other => (s'.slots other).map Loaded.child
    rw [slots,children_update]
    rfl
  · exact funext fun c => propext (born c).symm
  · exact funext fun c => congrArg (· = true) (gone c).symm

omit locked in
/-- A process is spawned. -/
theorem starts_seen {id : String} (nobody : ∀ u, (before.jobs u).starting = none) (empty : before.shared.slots id = none)
    (fresh : before.shared.life (before.shared.fresh id) = .Unborn) (spawned : s' = before.shared.spawn id)
    (handed : job'.handed = (before.jobs t).handed) (starting : job'.starting = some (before.shared.fresh id)) :
    May (storePolicy config reasons) before.view (.Starts id (before.shared.fresh id))
      (viewOf s' (Function.update before.jobs t job')) := by
  have held : before.view.held id = none := by
    change (before.shared.slots id).map Loaded.child = _
    rw [empty,Option.map_none]
  have now : (viewOf s' (Function.update before.jobs t job')).starting = some (before.shared.fresh id) :=
    starting_view (t := t) locked' (by rw [Function.update_self,starting])
  refine cast (congrArg _ ?_) (May.Starts id (before.shared.fresh id) (starting_view_none nobody) held (not_not.mpr fresh))
  subst spawned
  refine Store.State.ext rfl (lent_same handed).symm now.symm (funext fun c => propext ?_) (funext fun c => propext ?_)
  · change _ ∨ before.shared.life c ≠ .Unborn ↔ Function.update before.shared.life (before.shared.fresh id) .Running c ≠ .Unborn
    by_cases this : c = before.shared.fresh id <;> simp [this]
  · change (before.shared.life c).isGone = true ↔
      (Function.update before.shared.life (before.shared.fresh id) .Running c).isGone = true
    by_cases this : c = before.shared.fresh id
    · rw [this,fresh,Function.update_self]
      rfl
    · rw [Function.update_of_ne this]

omit locked locked' in
/-- What is being started has been handed to nobody. -/
theorem starting_unlent (counted : Counted before.shared before.jobs) (starting : (before.jobs t).starting = some c)
    (alone : before.shared.strong c = 1) : Holders.held handings before.jobs c = 0 := by
  refine handings_of_not fun u handed => ?_
  by_cases this : u = t
  · rw [this,starting_not_handed starting] at handed
    cases handed
  · have both := Holders.add_le_held refs before.jobs this c
    have first : refs (before.jobs u) c ≠ 0 := by
      rw [refs_pos,Job.handed_holds handed]
      exact List.mem_singleton_self _
    have second : refs (before.jobs t) c ≠ 0 := by
      rw [refs_pos,starting_holds starting]
      exact List.mem_singleton_self _
    have count := counted.count c
    omega

omit locked' in
/-- A process comes to nothing and is ended. -/
theorem fails_seen (counted : Counted before.shared before.jobs) (starting : (before.jobs t).starting = some c)
    (alone : before.shared.strong c = 1) (slots : s'.slots = before.shared.slots)
    (life : s'.life = (before.shared.release c).life) (handed : job'.handed = none)
    (nobody : ∀ u, (Function.update before.jobs t job' u).starting = none) :
    May (storePolicy config reasons) before.view (.Fails c) (viewOf s' (Function.update before.jobs t job')) := by
  have born : before.shared.life c ≠ .Unborn := fun unborn => by
    rw [counted.unborn c unborn] at alone
    cases alone
  have here : before.view.starting = some c := starting_view locked starting
  refine cast (congrArg _ ?_) (May.Fails c here)
  refine Store.State.ext ?_ (lent_same (handed.trans (starting_not_handed starting).symm)).symm
    (starting_view_none nobody).symm (funext fun d => propext ?_) (funext fun d => propext ?_)
  · change _ = fun id => (s'.slots id).map Loaded.child
    rw [slots]
    rfl
  · rw [viewOf,life]
    exact (ended_last born alone d).1.symm
  · rw [viewOf,life]
    exact (ended_last born alone d).2.symm

omit locked' in
/-- A process is put in its entry's slot and handed out. -/
theorem loads_seen (counted : Counted before.shared before.jobs) {id : String} {loaded : Loaded Child}
    (starting : (before.jobs t).starting = some loaded.child) (alone : before.shared.strong loaded.child = 1)
    (empty : before.shared.slots id = none) (placed : s' = before.shared.place id loaded)
    (handed : job'.handed = some loaded.child) (nobody : ∀ u, (Function.update before.jobs t job' u).starting = none) :
    May (storePolicy config reasons) before.view (.Loads id loaded.child) (viewOf s' (Function.update before.jobs t job')) := by
  have held : before.view.held id = none := by
    change (before.shared.slots id).map Loaded.child = _
    rw [empty,Option.map_none]
  have life : s'.life = before.shared.life := by rw [placed,place_life empty]
  have lent := lent_more (starting_not_handed starting) handed
  rw [starting_unlent counted starting alone] at lent
  have here : before.view.starting = some loaded.child := starting_view locked starting
  refine cast (congrArg _ ?_) (May.Loads id loaded.child here held)
  refine Store.State.ext ?_ lent.symm (starting_view_none nobody).symm ?_ ?_
  · change _ = fun other => (s'.slots other).map Loaded.child
    rw [placed,place_slots,children_update]
    rfl
  · change _ = fun c => s'.life c ≠ .Unborn
    rw [life]
    rfl
  · change _ = fun c => (s'.life c).isGone = true
    rw [life]
    rfl

end Operations

/-! ## A reference is dropped -/

section Dropping
variable {Tid : Type} [Fintype Tid] [DecidableEq Tid] {config : Config} {reasons : Reason → Prop} {before : State Tid} {t : Tid}
  {s' : Shared Tid} {job' : Job} {c : Child}

/-- The view once a thread has given back what it was handed. -/
def returned (before : State Tid) (t : Tid) (job' : Job) : Store.State String Child :=
  { before.view with lent := Holders.held handings (Function.update before.jobs t job') }

/-- What a thread gives back it was handed, or it is no reader. -/
theorem returns_seen (nothing : job'.handed = none) :
    Explained config reasons before.shared (before.jobs t) before.view (returned before t job') := by
  cases handed : (before.jobs t).handed with
  | none =>
    refine .same ?_
    rw [returned,lent_same (nothing.trans handed.symm)]
    rfl
  | some given =>
    obtain ⟨count,out,lent⟩ := lent_less handed nothing
    rw [returned,lent]
    exact .one (May.Returns given count out) (.returns handed)

/-- With its last reference a child is ended, and nobody reads from it. -/
theorem ends_seen (alone : OneAtATime config before) (locked : Locked before.shared.admission before.jobs)
    (locked' : Locked s'.admission (Function.update before.jobs t job'))
    (counted : Counted before.shared before.jobs) (counted' : Counted s' (Function.update before.jobs t job'))
    (starting : job'.starting = (before.jobs t).starting) (slots : s'.slots = before.shared.slots)
    (strong : s'.strong = (before.shared.release c).strong) (life : s'.life = (before.shared.release c).life)
    (holds : c ∈ (before.jobs t).holds) :
    Explained config reasons before.shared (before.jobs t) (returned before t job')
      (viewOf s' (Function.update before.jobs t job')) := by
  have same := starting_same locked locked' starting
  have children : (fun id => (s'.slots id).map Loaded.child) = before.view.held := by
    rw [slots]
    rfl
  by_cases last : before.shared.strong c = 1
  · have born : before.shared.life c ≠ .Unborn := fun unborn => by
      rw [counted.unborn c unborn] at last
      cases last
    have none_left : s'.strong c = 0 := by rw [strong,release_strong,last,one_self]
    have nobody : Holders.held refs (Function.update before.jobs t job') c = 0 := by
      have zero := counted'.count c
      omega
    rw [Holders.held_eq_zero_iff] at nobody
    have out (id : String) : (returned before t job').held id ≠ some c := by
      intro there
      obtain ⟨held,is,rfl⟩ := Option.map_eq_some_iff.mp there
      have slotted := (counted.in_slot (fun id held there => (alone.home id held there).1) is).1
      have read := counted.holder holds
      omega
    have unread : (returned before t job').lent c = 0 :=
      Holders.held_eq_zero_iff.mpr fun u => Nat.le_zero.mp ((handings_le_refs _ c).trans (nobody u).le)
    have settled : (returned before t job').starting ≠ some c := by
      intro here
      obtain ⟨u,is⟩ := starting_of_view (same.trans here)
      refine refs_pos.mpr ?_ (nobody u)
      rw [starting_holds is]
      exact List.mem_singleton_self _
    refine .one (cast (congrArg _ ?_) (May.Ends c out unread settled born)) (.ends holds last)
    refine Store.State.ext children.symm rfl same.symm (funext fun d => propext ?_) (funext fun d => propext ?_)
    · rw [viewOf,life]
      exact (ended_last born last d).1.symm
    · rw [viewOf,life]
      exact (ended_last born last d).2.symm
  · have kept : s'.life = before.shared.life := by rw [life,release_life_more last]
    refine .same (Store.State.ext children rfl same ?_ ?_)
    · change (fun d => s'.life d ≠ .Unborn) = _
      rw [kept]
      rfl
    · change (fun d => (s'.life d).isGone = true) = _
      rw [kept]
      rfl

omit [DecidableEq Tid] in
/-- Nobody reads from a child whose slot has the only reference to it. -/
theorem unread (counted : Counted before.shared before.jobs) (home : ∀ id held, before.shared.slots id = some held → held.child.id = id)
    {id : String} {held : Loaded Child} (there : before.shared.slots id = some held) (idle : before.shared.strong held.child ≤ 1) :
    before.view.lent held.child = 0 := by
  have slotted := (counted.in_slot home there).1
  have count := counted.count held.child
  have nobody : Holders.held refs before.jobs held.child = 0 := by omega
  rw [Holders.held_eq_zero_iff] at nobody
  exact Holders.held_eq_zero_iff.mpr fun u => Nat.le_zero.mp ((handings_le_refs _ _).trans (nobody u).le)

/-- Looking for a live child finds none, or takes a dead one out, or lends what
    it finds. -/
theorem running_seen (alone : OneAtATime config before) (locked : Locked before.shared.admission before.jobs)
    (locked' : Locked s'.admission (Function.update before.jobs t job')) (counted : Counted before.shared before.jobs)
    (exited : reasons .Exited) {id : String} {found : Option Child} (ran : before.shared.running id = (found,s'))
    (looks : (before.jobs t).looks = some id) (nothing : (before.jobs t).handed = none) (handed : job'.handed = found)
    (starting : job'.starting = (before.jobs t).starting) :
    Explained config reasons before.shared (before.jobs t) before.view (viewOf s' (Function.update before.jobs t job')) := by
  rcases running_cases before.shared id with ⟨empty,is⟩ | ⟨held,there,last,is⟩ | ⟨held,there,is⟩
  · rw [is] at ran
    cases ran
    exact .same (view_same locked locked' (Stamped.refl _) rfl (handed.trans nothing.symm) starting)
  · have dead := running_gone there is
    rw [is] at ran
    cases ran
    obtain ⟨status,dead⟩ := dead
    have gone := gone_of_check dead
    have ended : ((before.shared.put id none).release held.child).life =
        Function.update before.shared.life held.child (before.shared.life held.child).stopped := if_pos last
    have life := waited_same gone ended
    have home (id : String) (held : Loaded Child) (there : before.shared.slots id = some held) := (alone.home id held there).1
    refine .one (takes_seen locked locked' .Exited there rfl (fun d => (life d).1) (fun d => (life d).2)
      (handed.trans nothing.symm) starting exited ?_) (.misses looks there dead)
    exact ⟨gone,unread counted home there last.le⟩
  · rw [is] at ran
    cases ran
    exact .one (lends_seen locked locked' there (Stamped.touched _ _ _) rfl nothing handed starting) (.lends looks there)

end Dropping

/-! ## What an admission has named -/

/-- What an admission has seen, and what it unloads. -/
def Names (config : Config) : Phase → Prop
  | .Weighing _ rest seen => Looked config rest seen
  | .Unloading _ rest | .Ending _ _ rest => Unloadable config rest
  | _ => True

section Named
variable {Tid : Type} {config : Config} {input : Input} {s s' : Shared Tid} {request : Request} {phase next : Phase}

theorem Unloadable.tail {id : String} {ids : List String} (unloadable : Unloadable config (id :: ids)) : Unloadable config ids :=
  fun other member => unloadable other (List.mem_cons_of_mem _ member)

/-- What may be unloaded is not resident. -/
theorem Unloadable.head {id : String} {ids : List String} {reasons : Reason → Prop} (unloadable : Unloadable config (id :: ids)) :
    ¬ (storePolicy config reasons).resident id := by
  rintro ⟨entry,known,own,resident⟩
  obtain ⟨other,listed,same,onDemand⟩ := unloadable id List.mem_cons_self
  rw [config.catalog.eq_of_id known listed (own.trans same.symm),onDemand] at resident
  cases resident

/-- A decision on a whole snapshot unloads on-demand entries alone. -/
theorem Looked.unload {seen : List Admission.Loaded} {wanted : Admission.Wanted} {free : Option ℕ} {ids : List String}
    (looked : Looked config [] seen) (decided : config.budget.admit seen wanted free = some (.Unload ids)) :
    Unloadable config ids := by
  obtain ⟨chosen,rfl,part,_⟩ := Admission.unload_room decided
  obtain ⟨read,all,_,each⟩ := looked
  rw [List.append_nil] at all
  intro id named
  obtain ⟨subject,member,rfl⟩ := List.mem_map.mp named
  obtain ⟨inside,onDemand,_⟩ := Admission.mem_candidates.mp (part.subset member)
  obtain ⟨entry,known,same,residency⟩ := each subject inside
  exact ⟨entry,all ▸ known,same,residency.trans onDemand⟩

theorem PhaseBranch.names (branch : PhaseBranch config s request input phase s' (.Admitting request next))
    (names : Names config phase) : Names config next := by
  cases branch with
  | reads => exact ⟨[],rfl,List.Sublist.refl _,fun record inside => (by cases inside)⟩
  | weighs => exact names.snoc
  | chooses _ _ _ _ decided => exact names.unload decided
  | takes => exact names.tail
  | skips => exact names.tail
  | ends => exact names
  | _ => trivial

variable [DecidableEq Tid] {allowed : State Tid → Event Tid → Prop}

theorem names {state : State Tid} (reached : Transition.Reaches (router config Tid) allowed state) {t : Tid}
    (doing : state.jobs t = .Admitting request phase) : Names config phase :=
  phase_invariant (P := Names config) trivial (fun _ branch names => branch.names names) reached doing

end Named

/-! ## The refinement -/

/-- The reasons there are to take a child out, by what the threads are doing. -/
structure Grounds {Tid : Type} (config : Config) (reasons : Reason → Prop) (state : State Tid) : Prop where
  exited : reasons .Exited
  room : ∀ t request named rest, state.jobs t = .Admitting request (.Unloading named rest) → reasons .Room
  idle : ∀ t now rest named, state.jobs t = .Sweeping (.Idle now) rest named → config.idleWindow.duration ≠ none → reasons .Idle
  stop : ∀ t, (state.jobs t).clears = true → reasons .Stop

section Refines
variable {Tid : Type} [Fintype Tid] [DecidableEq Tid] {config : Config} {reasons : Reason → Prop} {allowed : State Tid → Event Tid → Prop}
  {before : State Tid} {t : Tid} {input : Input} {s' : Shared Tid} {job' : Job}

omit [Fintype Tid] [DecidableEq Tid] in
theorem OneAtATime.locked {state : State Tid} (alone : OneAtATime config state) : Locked state.shared.admission state.jobs := by
  intro t starting
  obtain ⟨c,is⟩ := Option.isSome_iff_exists.mp starting
  exact alone.lock t (starting_admits is)

omit [Fintype Tid] in
/-- Where the admitting thread starts nothing, nothing is being started. -/
theorem OneAtATime.nobody (alone : OneAtATime config before) (admits : (before.jobs t).admits = true) (nothing : job'.starting = none)
    (u : Tid) : (Function.update before.jobs t job' u).starting = none := by
  by_cases this : u = t
  · rw [this,Function.update_self,nothing]
  · rw [Function.update_of_ne this]
    by_contra starting
    obtain ⟨c,is⟩ := Option.ne_none_iff_exists'.mp starting
    exact this (alone.unique (starting_admits is) admits)

end Refines

section Cases
variable {Tid : Type} [Fintype Tid] [DecidableEq Tid] {config : Config} {reasons : Reason → Prop} {allowed : State Tid → Event Tid → Prop}
  {before : State Tid} {t : Tid} {input : Input} {s' : Shared Tid} {job job' : Job}
  (reached : Transition.Reaches (router config Tid) allowed before) (doing : before.jobs t = job)
  (locked' : Locked s'.admission (Function.update before.jobs t job'))
include reached doing locked'

/-- Nothing that the store knows of has changed. -/
theorem quiet_seen (slots : Stamped before.shared.slots s'.slots) (life : s'.life = before.shared.life)
    (handed : job'.handed = job.handed) (starting : job'.starting = job.starting) :
    Explained config reasons before.shared job before.view (viewOf s' (Function.update before.jobs t job')) := by
  subst doing
  exact .same (view_same (oneAtATime reached).locked locked' slots life handed starting)

/-- A reference is dropped by a thread that is starting nothing. -/
theorem drops_seen (counted' : Counted s' (Function.update before.jobs t job')) {c : Child} (nothing : job'.handed = none)
    (starting : job'.starting = job.starting) (slots : s'.slots = before.shared.slots)
    (strong : s'.strong = (before.shared.release c).strong) (life : s'.life = (before.shared.release c).life) (holds : c ∈ job.holds) :
    Explained config reasons before.shared job before.view (viewOf s' (Function.update before.jobs t job')) := by
  subst doing
  have alone := oneAtATime reached
  have gives : Explained config reasons before.shared (before.jobs t) before.view (returned before t job') := returns_seen nothing
  exact gives.trans (ends_seen alone alone.locked locked' (counted_reaches reached) counted' starting slots strong life holds)

/-- A thread that was handed nothing looks for a live child. -/
theorem looks_seen (grounds : Grounds config reasons before) {id : String} {found : Option Child}
    (ran : before.shared.running id = (found,s')) (looks : job.looks = some id) (nothing : job.handed = none)
    (handed : job'.handed = found)
    (starting : job'.starting = job.starting) :
    Explained config reasons before.shared job before.view (viewOf s' (Function.update before.jobs t job')) := by
  subst doing
  have alone := oneAtATime reached
  exact running_seen alone alone.locked locked' (counted_reaches reached) grounds.exited ran looks nothing handed starting

/-- A child is taken out of its slot, for a reason that its thread has. -/
theorem takes_out_seen {id : String} {held : Loaded Child} (why : Reason) (there : before.shared.slots id = some held)
    (slots : s'.slots = Function.update before.shared.slots id none) (life : s'.life = before.shared.life)
    (handed : job'.handed = job.handed) (starting : job'.starting = job.starting) (reason : reasons why)
    (may : (storePolicy config reasons).Takes before.view id held.child why)
    (does : Doing config before.shared job (.Takes id held.child why)) :
    Explained config reasons before.shared job before.view (viewOf s' (Function.update before.jobs t job')) := by
  subst doing
  have same (c : Child) : s'.life c = before.shared.life c := by rw [life]
  exact .one (takes_seen (oneAtATime reached).locked locked' why there slots (fun c => by rw [same]) (fun c => by rw [same]) handed
    starting reason may) does

omit doing locked' in
/-- Nobody reads from a child that the slot has the only reference to. -/
theorem idle_unread {id : String} {held : Loaded Child} (there : before.shared.slots id = some held)
    (idle : before.shared.strong held.child ≤ 1) : before.view.lent held.child = 0 :=
  unread (counted_reaches reached) (fun id held there => ((oneAtATime reached).home id held there).1) there idle

/-- A step of an admission. -/
theorem phase_seen (grounds : Grounds config reasons before) {request : Request} {phase : Phase}
    (admitting : job = .Admitting request phase) (branch : PhaseBranch config before.shared request input phase s' job')
    (counted' : Counted s' (Function.update before.jobs t job')) :
    Explained config reasons before.shared job before.view (viewOf s' (Function.update before.jobs t job')) := by
  have alone := oneAtATime reached
  have counted := counted_reaches reached
  have named := names reached (doing.trans admitting)
  have sound := alone.sound t request phase (doing.trans admitting)
  have admits : (before.jobs t).admits = true := by
    rw [doing,admitting]
    rfl
  subst admitting
  cases branch with
  | finds _ _ _ ran => exact looks_seen reached doing locked' grounds ran rfl rfl rfl rfl
  | misses _ _ ran => exact looks_seen reached doing locked' grounds ran rfl rfl rfl rfl
  | takes _ listed rest id held there idle =>
    exact takes_out_seen reached doing locked' .Room there rfl rfl rfl rfl (grounds.room t request listed _ doing)
      ⟨named.head,idle_unread reached there idle⟩ (.unloads there idle)
  | ends => exact drops_seen reached doing locked' counted' rfl rfl rfl rfl rfl (List.mem_singleton_self _)
  | spawns second =>
    have nobody (u : Tid) : (before.jobs u).starting = none := by
      by_contra starting
      obtain ⟨c,is⟩ := Option.ne_none_iff_exists'.mp starting
      rw [alone.unique (starting_admits is) admits,doing] at is
      cases is
    refine .one (starts_seen locked' nobody sound.1 (counted.lives.fresh _) rfl ?_ rfl) (.starts _ second)
    rw [doing]
    rfl
  | retries _ child failure =>
    have starting : (before.jobs t).starting = some child := by rw [doing]; rfl
    exact .one (fails_seen alone.locked counted starting (unshared reached t child starting) rfl rfl rfl
      (alone.nobody admits rfl)) (.fails ..)
  | abandons _ child failure =>
    have starting : (before.jobs t).starting = some child := by rw [doing]; rfl
    exact .one (fails_seen alone.locked counted starting (unshared reached t child starting) rfl rfl rfl
      (alone.nobody admits rfl)) (.fails ..)
  | places _ loaded =>
    have starting : (before.jobs t).starting = some loaded.child := by rw [doing]; rfl
    exact .one (loads_seen alone.locked counted starting (unshared reached t _ starting) sound.1 rfl rfl
      (alone.nobody admits rfl)) (.loads ..)
  | _ => exact quiet_seen reached doing locked' (Stamped.refl _) rfl rfl rfl

/-- A step of a thread is a run of the store's operations. -/
theorem branch_seen (grounds : Grounds config reasons before) (branch : Branch config before.shared t input job s' job')
    (counted' : Counted s' (Function.update before.jobs t job')) :
    Explained config reasons before.shared job before.view (viewOf s' (Function.update before.jobs t job')) := by
  cases branch with
  | finds _ _ _ _ ran => exact looks_seen reached doing locked' grounds ran rfl rfl rfl rfl
  | misses _ _ _ ran => exact looks_seen reached doing locked' grounds ran rfl rfl rfl rfl
  | admits _ request phase _ _ branch => exact phase_seen reached doing locked' grounds rfl branch counted'
  | touches => exact quiet_seen reached doing locked' (Stamped.touched _ _ _) rfl rfl rfl
  | drops => exact drops_seen reached doing locked' counted' rfl rfl rfl rfl rfl (List.mem_singleton_self _)
  | buries _ id rest named held status there last gone =>
    have dead := gone_of_check gone
    let buried : Shared Tid := { before.shared.put id none with
      life := Function.update before.shared.life held.child (before.shared.life held.child).stopped }
    have ended : buried.life = Function.update before.shared.life held.child (before.shared.life held.child).stopped := rfl
    have life (c : Child) := waited_same dead ended c
    exact .one (takes_seen (oneAtATime reached).locked locked' .Exited there rfl (fun c => (life c).1) (fun c => (life c).2)
      (by rw [doing]; rfl) (by rw [doing]; rfl) grounds.exited ⟨dead,idle_unread reached there last.le⟩) (.buries there gone)
  | unloads _ now id rest named held duration there idle window old =>
    obtain ⟨history,recorded⟩ : ∃ history, Transition.Reaches (recorded config Tid) (fun both => allowed both.1) (before,history) :=
      reached.recorded
    have sweeps := sweeps recorded t
    rw [doing] at sweeps
    have on : config.idleWindow.duration ≠ none := by simp [window]
    exact takes_out_seen reached doing locked' .Idle there rfl rfl rfl rfl (grounds.idle t now _ named doing on)
      ⟨sweeps.1.head,idle_unread reached there idle⟩ (.expires there idle window old)
  | names => exact drops_seen reached doing locked' counted' rfl rfl rfl rfl rfl (List.mem_singleton_self _)
  | clears _ called id rest taken =>
    by_cases empty : before.shared.slots id = none
    · have slots : Stamped before.shared.slots (Function.update before.shared.slots id none) := by
        rw [Function.update_eq_self_iff.mpr empty.symm]
        exact Stamped.refl _
      exact quiet_seen reached doing locked' slots rfl rfl rfl
    · obtain ⟨held,there⟩ := Option.ne_none_iff_exists'.mp empty
      have stops : (before.jobs t).clears = true := by
        rw [doing]
        rfl
      exact takes_out_seen reached doing locked' .Stop there rfl rfl rfl rfl (grounds.stop t stops) trivial (.clears there)
  | ends => exact drops_seen reached doing locked' counted' rfl rfl rfl rfl rfl List.mem_cons_self
  | _ => exact quiet_seen reached doing locked' (Stamped.refl _) rfl rfl rfl

end Cases

/-! ## Whole runs -/

section Runs
variable {Tid : Type} [Fintype Tid] [DecidableEq Tid] {config : Config} {reasons : Reason → Prop} {allowed : State Tid → Event Tid → Prop}

/-- What an event accounts for: an exit for that exit alone, and a step for what
    its thread may do. -/
def Accounts (config : Config) (before : State Tid) : Event Tid → Op String Child → Prop
  | .Tick, _ => False
  | .Dies child _, op => op = .Exits child
  | .Act t _, op => Doing config before.shared (before.jobs t) op

omit [Fintype Tid] [DecidableEq Tid] in
theorem Accounts.exits {before : State Tid} {event : Event Tid} {child : Child} (accounts : Accounts config before event (.Exits child)) :
    ∃ status, event = .Dies child status := by
  cases event with
  | Tick => cases accounts
  | Dies other status =>
    cases accounts
    exact ⟨status,rfl⟩
  | Act => exact (Doing.no_exit accounts).elim

omit [DecidableEq Tid] in
/-- A process exits on its own. -/
theorem exits_seen {before : State Tid} {child : Child} {status : String} (running : before.shared.life child = .Running) :
    May (storePolicy config reasons) before.view (.Exits child)
      (viewOf { before.shared with life := Function.update before.shared.life child (.Exited status) } before.jobs) := by
  have started : before.view.started child := by simp [State.view,viewOf,running]
  have alive : ¬ before.view.gone child := by simp [State.view,viewOf,running,Life.isGone]
  refine cast (congrArg _ ?_) (May.Exits child started alive)
  refine Store.State.ext rfl rfl rfl (funext fun c => propext ?_) (funext fun c => propext ?_)
  · change before.shared.life c ≠ .Unborn ↔ Function.update before.shared.life child (.Exited status) c ≠ .Unborn
    by_cases this : c = child
    · rw [this,running,Function.update_self]
      simp
    · rw [Function.update_of_ne this]
  · change c = child ∨ (before.shared.life c).isGone = true ↔
      (Function.update before.shared.life child (.Exited status) c).isGone = true
    by_cases this : c = child
    · rw [this,Function.update_self]
      simp [Life.isGone]
    · rw [Function.update_of_ne this]
      exact or_iff_right this

/-- A step of the router is a run of the store's operations. -/
theorem step_seen {before after : State Tid} {event : Event Tid} (reached : Transition.Reaches (router config Tid) allowed before)
    (grounds : Grounds config reasons before) (may : allowed before event) (steps : (router config Tid).step before event = some after) :
    ∃ ops, (May (storePolicy config reasons)).Runs before.view ops after.view ∧ ∀ op ∈ ops, Accounts config before event op := by
  have reached' : Transition.Reaches (router config Tid) allowed after := .next reached may steps
  cases event with
  | Tick =>
    cases steps
    exact ⟨[],.nil,by simp⟩
  | Dies child status =>
    simp only [router,State.step] at steps
    split_ifs at steps with running
    cases steps
    refine ⟨[.Exits child],.one (exits_seen running),fun op member => ?_⟩
    rw [List.mem_singleton.mp member]
    rfl
  | Act t input =>
    have moved {job : Job} (ran : (before.jobs t).step config input before.shared t = some (after.shared,job))
        (jobs : after.jobs = Function.update before.jobs t job) :
        Explained config reasons before.shared (before.jobs t) before.view after.view := by
      have locked := (oneAtATime reached').locked
      have counted := counted_reaches reached'
      rw [jobs] at locked counted
      have seen : Explained config reasons before.shared (before.jobs t) before.view
          (viewOf after.shared (Function.update before.jobs t job)) :=
        branch_seen reached rfl locked grounds (step_branch ran) counted
      rwa [← jobs] at seen
    rcases act_cases steps with ⟨_,advances⟩ | ⟨id,_,_,rfl⟩ | ⟨id,advanced,_,_,advances,rfl⟩
    · obtain ⟨job,ran,jobs,_⟩ := advance_cases advances
      exact moved ran jobs
    · exact ⟨[],.nil,by simp⟩
    · obtain ⟨job,ran,jobs,_⟩ := advance_cases advances
      exact moved ran jobs

/-- The router explained by the store. -/
def explanation (grounds : ∀ state : State Tid, Transition.Reaches (router config Tid) allowed state → Grounds config reasons state) :
    Transition.Simulation (router config Tid) allowed
      (May (storePolicy config reasons) : Spec (Store.State String Child) (Op String Child)) where
  view := State.view
  accounts := Accounts config
  step _ _ _ reached may steps := step_seen reached (grounds _ reached) may steps

omit [DecidableEq Tid] in
theorem start_view : (State.start Tid).view = Store.State.empty := by
  refine Store.State.ext rfl ?_ rfl (funext fun c => ?_) (funext fun c => ?_)
  · funext c
    exact handings_of_not fun _ handed => (by cases handed)
  · exact eq_false fun born => born rfl
  · exact eq_false fun gone => (by cases gone)

omit [Fintype Tid] [DecidableEq Tid] in
theorem every_ground (state : State Tid) : Grounds config (fun _ => True) state :=
  ⟨trivial,fun _ _ _ _ _ => trivial,fun _ _ _ _ _ _ => trivial,fun _ _ => trivial⟩

/-- Whatever the order of the steps, every run of the router is seen, step by
    step, as a run of a store of models that starts empty: one that holds at most
    one instance of each, starts one at a time in a place that is empty, takes
    an instance that nobody reads from out where its thread found it exited or,
    unless it is a resident, makes room for an admission or found it idle for
    longer than the window, and any other only where its thread is a stop that
    clears the slot; and ends what it took out once nobody has a reference to it
    left. -/
theorem router_is_store {events : List (Event Tid)} {state : State Tid}
    (trace : Transition.Trace (router config Tid) (fun _ _ => True) (State.start Tid) events state) :
    (State.start Tid).view = Store.State.empty ∧ ∃ told : List (List (Op String Child)),
      Transition.Seen (router config Tid) (May (storePolicy config fun _ => True)) State.view (Accounts config) (State.start Tid)
        events told state :=
  ⟨start_view,(explanation fun state _ => every_ground state).trace .start trace⟩

end Runs

/-- A model is loaded, lent, given back, taken out when its window has passed,
    and ended. -/
theorem idle_model_is_store : ∃ events : List (Event Bool), ∃ state : State Bool, (state.shared.life ⟨0,"m"⟩).isReaped = true ∧
    ∃ told : List (List (Op String Child)),
      Transition.Seen (router oneModel Bool) (May (storePolicy oneModel fun _ => True)) State.view (Accounts oneModel) (State.start Bool)
        events told state := by
  have passes : ((router oneModel Bool).run (fun _ _ => true) (State.start Bool)
      (expelling false true ++ [.Act true .Go])).any (fun state => (state.shared.life ⟨0,"m"⟩).isReaped = true) = true := by
    decide +kernel
  obtain ⟨state,runs,reaped⟩ := (Option.any_eq_true ..).mp passes
  exact ⟨_,state,of_decide_eq_true reaped,(router_is_store (Transition.trace_of_run (fun _ _ _ => trivial) runs)).2⟩

end Maestro.Threads
