import Maestro.Branches
import Maestro.FreedRoom
import Maestro.Locks

/-!
# Unloading what has gone idle

A sweep acts on a snapshot that is old by the time it reaches a slot. What keeps
it from taking a model in use is what it looks at again under the slot's lock:
the references, and the mark of the latest use, which a relay renews between its
end and the drop of its reference.
-/
namespace Maestro.Threads
open Slots (Loaded Slot Table)

/-! ## A record of the relays and of the sweeps -/

/-- When a relay from each child last ended, and which slots each thread's
    latest idle sweep has emptied. -/
structure History (Tid : Type) where
  ended : Child → Option ℕ
  emptied : Tid → List String

section Record
variable {Tid : Type} [DecidableEq Tid] (config : Config)

/-- The slots that a step emptied. -/
def emptiedBetween (before after : Table Child) : List String := config.ids.filter fun id => (before id).isSome && (after id).isNone

/-- The record after a step of one thread. -/
def History.after (self : History Tid) (t : Tid) (s s' : Shared Tid) (job job' : Job) : History Tid :=
  match job, job' with
  | .Serving _ child, .Touching _ _ => { self with ended := Function.update self.ended child (some s.clock) }
  | .Expiring _ _ _, .Sweeping _ _ _ => { self with emptied := Function.update self.emptied t [] }
  | .Sweeping (.Idle _) _ _, _ =>
    { self with emptied := Function.update self.emptied t (self.emptied t ++ emptiedBetween config s.slots s'.slots) }
  | _, _ => self

def note (before : State Tid) (event : Event Tid) (after : State Tid) (history : History Tid) : History Tid :=
  match event with
  | .Act t _ => history.after config t before.shared after.shared (before.jobs t) (after.jobs t)
  | _ => history

/-- The router with a record of its relays and sweeps. -/
def recorded (Tid : Type) [DecidableEq Tid] : Transition.System (State Tid × History Tid) (Event Tid) :=
  (router config Tid).recording ⟨fun _ => none,fun _ => []⟩ (note config)

end Record

section Steps
variable {Tid : Type} [DecidableEq Tid] {config : Config} {before after : State Tid} {event : Event Tid} {t : Tid}
  {history history' : History Tid}

theorem emptiedBetween_same (slots : Table Child) : emptiedBetween config slots slots = [] := by
  rw [emptiedBetween,List.filter_eq_nil_iff]
  intro id _
  cases slots id <;> simp

/-- Where nothing happened nothing is written down. -/
theorem History.after_same (self : History Tid) (s : Shared Tid) (job : Job) : self.after config t s s job job = self := by
  cases job with
  | Sweeping kind rest named =>
    cases kind with
    | Exited => rfl
    | Idle now => simp [History.after,emptiedBetween_same]
  | _ => rfl

/-- A sweep that begins has emptied nothing. -/
theorem History.after_begins (self : History Tid) (s s' : Shared Tid) (now : ℕ) (seen : List Admission.Loaded)
    (kind : Sweep) (ids : List String) (rest : List Entry) (named : List (String × Option String)) :
    (self.after config t s s' (.Expiring now rest seen) (.Sweeping kind ids named)).emptied t = [] :=
  Function.update_self ..

/-- One that goes on has emptied what its step emptied. -/
theorem History.after_sweeps (self : History Tid) (s s' : Shared Tid) (now : ℕ) (rest : List String)
    (named : List (String × Option String)) (job' : Job) :
    (self.after config t s s' (.Sweeping (.Idle now) rest named) job').emptied t =
      self.emptied t ++ emptiedBetween config s.slots s'.slots :=
  Function.update_self ..

/-- A step of the system changes neither slots nor jobs, or is a branch of one
    thread's step. -/
theorem recorded_cases (steps : (recorded config Tid).step (before,history) event = some (after,history')) :
    (after.jobs = before.jobs ∧ after.shared.slots = before.shared.slots ∧ before.shared.clock ≤ after.shared.clock ∧
      history' = history) ∨
    ∃ t input job, (before.jobs t).step config input before.shared t = some (after.shared,job) ∧
      after.jobs = Function.update before.jobs t job ∧
      history' = history.after config t before.shared after.shared (before.jobs t) job := by
  obtain ⟨state,stepped,is⟩ := Option.map_eq_some_iff.mp steps
  cases is
  cases event with
  | Tick =>
    cases stepped
    exact .inl ⟨rfl,rfl,Nat.le_succ _,rfl⟩
  | Dies child status =>
    simp only [router,State.step] at stepped
    split_ifs at stepped
    cases stepped
    exact .inl ⟨rfl,rfl,le_rfl,rfl⟩
  | Act t input =>
    rcases act_cases stepped with ⟨_,advances⟩ | ⟨id,_,_,rfl⟩ | ⟨id,advanced,_,_,advances,rfl⟩
    · obtain ⟨job,ran,jobs,_⟩ := advance_cases advances
      refine .inr ⟨t,input,job,ran,jobs,?_⟩
      rw [note,jobs,Function.update_self]
    · exact .inl ⟨rfl,rfl,le_rfl,History.after_same ..⟩
    · obtain ⟨job,ran,jobs,_⟩ := advance_cases advances
      refine .inr ⟨t,input,job,ran,jobs,?_⟩
      rw [note,jobs,Function.update_self]

end Steps

/-! ## The marks of use -/

section Marks
variable {Tid : Type} {config : Config} {input : Input} {s s' : Shared Tid} {job job' : Job} {t : Tid}

theorem ran_clock {id : String} {found : Option Child} (ran : s.running id = (found,s')) : s'.clock = s.clock := by
  rcases running_cases s id with ⟨_,is⟩ | ⟨_,_,_,is⟩ | ⟨_,_,is⟩ <;> rw [is] at ran <;> cases ran <;> rfl

theorem place_clock (self : Shared Tid) (id : String) (loaded : Loaded Child) : (self.place id loaded).clock = self.clock := by
  rw [Shared.place]
  cases self.slots id <;> rfl

/-- Only time moves the clock. -/
theorem Branch.clock (branch : Branch config s t input job s' job') : s'.clock = s.clock := by
  cases branch with
  | finds _ request _ _ ran => exact ran_clock ran
  | misses _ request _ ran => exact ran_clock ran
  | admits _ request phase _ _ branch =>
    cases branch with
    | finds _ _ _ ran => exact ran_clock ran
    | misses _ _ ran => exact ran_clock ran
    | places _ loaded => exact place_clock ..
    | _ => rfl
  | _ => rfl

/-- What is in a slot after a step was there before, or carries the mark of this
    moment, or has just been placed. -/
def Marked (s : Shared Tid) (job : Job) (s' : Shared Tid) : Prop :=
  ∀ id held, s'.slots id = some held → s.slots id = some held ∨ held.lastUsed = s.clock ∨
    ∃ request, job = .Admitting request (.Placing held) ∧ request.entry.id = id

theorem Marked.same (slots : s'.slots = s.slots) : Marked s job s' := fun _ _ there => .inl (slots ▸ there)

/-- A slot was emptied. -/
theorem Marked.emptied {id : String} (slots : s'.slots = Function.update s.slots id none) : Marked s job s' := by
  intro other held there
  rw [slots] at there
  by_cases this : other = id
  · subst this
    rw [Function.update_self] at there
    cases there
  · rw [Function.update_of_ne this] at there
    exact .inl there

/-- A slot was marked as used. -/
theorem Marked.touched {id : String} (slots : s'.slots = Function.update s.slots id (Slots.touched s.clock (s.slots id))) :
    Marked s job s' := by
  intro other held there
  rw [slots] at there
  by_cases this : other = id
  · subst this
    rw [Function.update_self] at there
    cases was : s.slots other with
    | none =>
      rw [was] at there
      cases there
    | some old =>
      rw [was] at there
      cases there
      exact .inr (.inl rfl)
  · rw [Function.update_of_ne this] at there
    exact .inl there

theorem running_marked {id : String} {found : Option Child} (ran : s.running id = (found,s')) : Marked s job s' := by
  rcases running_cases s id with ⟨_,is⟩ | ⟨_,_,_,is⟩ | ⟨_,_,is⟩ <;> rw [is] at ran <;> cases ran
  · exact .same rfl
  · exact .emptied rfl
  · exact .touched rfl

theorem Branch.marked (branch : Branch config s t input job s' job') : Marked s job s' := by
  cases branch with
  | finds _ _ _ _ ran => exact running_marked ran
  | misses _ _ _ ran => exact running_marked ran
  | touches => exact .touched rfl
  | buries => exact .emptied rfl
  | unloads => exact .emptied rfl
  | clears => exact .emptied rfl
  | admits _ request phase _ _ branch =>
    cases branch with
    | finds _ _ _ ran => exact running_marked ran
    | misses _ _ ran => exact running_marked ran
    | takes => exact .emptied rfl
    | places _ loaded =>
      intro id held there
      rw [place_slots] at there
      by_cases this : id = request.entry.id
      · subst this
        rw [Function.update_self] at there
        cases there
        exact .inr (.inr ⟨request,rfl,rfl⟩)
      · rw [Function.update_of_ne this] at there
        exact .inl there
    | _ => exact .same rfl
  | _ => exact .same rfl

end Marks

/-! ## The mark is no older than the latest relay -/

/-- The child of an ended relay whose use is still to be marked. -/
def Job.touches : Job → Option (Request × Child)
  | .Touching request child => some (request, child)
  | _ => none

/-- The request a thread was handed a child for, and the child. -/
def Job.answered : Job → Option (Request × Child)
  | .Admitting request (.Placed child) => some (request, child)
  | .Serving request child | .Touching request child | .Dropping request child => some (request, child)
  | _ => none

/-- A thread was handed a child of the entry it asked for. -/
def Own {Tid : Type} (state : State Tid) : Prop :=
  ∀ t request child, (state.jobs t).answered = some (request, child) → child.id = request.entry.id

/-- Every mark is no older than the latest end of a relay from the entry, unless
    the thread that relayed is still to renew it. -/
structure Fresh {Tid : Type} (state : State Tid) (history : History Tid) : Prop where
  past : ∀ child time, history.ended child = some time → time ≤ state.shared.clock
  slotted : ∀ child time held, history.ended child = some time → state.shared.slots child.id = some held →
    time ≤ held.lastUsed ∨ ∃ t request, (state.jobs t).touches = some (request,child)
  placing : ∀ child time t request loaded, history.ended child = some time →
    state.jobs t = .Admitting request (.Placing loaded) → request.entry.id = child.id → time ≤ loaded.lastUsed

section Latest
variable {Tid : Type} {config : Config} {input : Input} {s s' : Shared Tid} {job job' : Job} {t : Tid}
  {state before after : State Tid} {event : Event Tid} {allowed : State Tid → Event Tid → Prop}

theorem touches_answered {answer : Request × Child} (touches : job.touches = some answer) : job.answered = some answer := by
  cases job with
  | Touching => exact touches
  | _ => cases touches

theorem answered_handed {request : Request} {child : Child} (answered : job.answered = some (request,child)) :
    job.handed = some child := by
  cases job with
  | Admitting request phase =>
    cases phase with
    | Placed => cases answered; rfl
    | _ => cases answered
  | Serving => cases answered; rfl
  | Touching => cases answered; rfl
  | Dropping => cases answered; rfl
  | _ => cases answered

/-- What a step hands out is a child of the entry, or was handed out before. -/
theorem Branch.answered (branch : Branch config s t input job s' job') (alone : OneAtATime config state)
    (shared : state.shared = s) (doing : state.jobs t = job) {request : Request} {child : Child}
    (answered : job'.answered = some (request,child)) : job.answered = some (request,child) ∨ child.id = request.entry.id := by
  subst shared
  have found {id : String} {shared : Shared Tid} (ran : state.shared.running id = (some child,shared)) : child.id = id := by
    rcases running_cases state.shared id with ⟨_,is⟩ | ⟨_,_,_,is⟩ | ⟨held,there,is⟩ <;> rw [is] at ran <;> cases ran
    exact (alone.home id held there).1
  cases branch with
  | finds _ request _ _ ran =>
    cases answered
    exact .inr (found ran)
  | admits _ request phase _ _ branch =>
    cases branch with
    | finds _ _ _ ran =>
      cases answered
      exact .inr (found ran)
    | places _ loaded =>
      cases answered
      exact .inr (alone.sound t request _ doing).2.2
    | serves => exact .inl answered
    | _ => cases answered
  | relays => exact .inl answered
  | keeps => exact .inl answered
  | hangs => exact .inl answered
  | touches => exact .inl answered
  | _ => cases answered

/-- Whoever still has to mark a use marks it in its next step. -/
theorem Branch.touched (branch : Branch config s t input job s' job') {request : Request} {child : Child}
    (touches : job.touches = some (request,child)) :
    s'.slots = Function.update s.slots request.entry.id (Slots.touched s.clock (s.slots request.entry.id)) := by
  cases branch with
  | touches => cases touches; rfl
  | _ => cases touches

/-- A child to be placed is stamped with the moment it was measured. -/
theorem Branch.placing (branch : Branch config s t input job s' job') {request : Request} {loaded : Loaded Child}
    (placing : job' = .Admitting request (.Placing loaded)) : loaded.lastUsed = s.clock := by
  cases branch with
  | admits _ request phase _ _ branch =>
    cases branch with
    | measures => cases placing; rfl
    | _ => cases placing
  | _ => cases placing

variable [DecidableEq Tid]

theorem own (reached : Transition.Reaches (router config Tid) allowed state) : Own state := by
  refine Transition.Reaches.invariant (P := Own) ?_ (fun before event after reached own _ steps u request child answered => ?_)
    reached
  · intro t request child answered
    cases answered
  · rcases step_cases steps with ⟨_,_,jobs⟩ | ⟨_,_,_,jobs,_⟩ | ⟨t,input,job,_,ran,jobs⟩
    · exact own u request child (jobs ▸ answered)
    · exact own u request child (jobs ▸ answered)
    · rw [jobs] at answered
      by_cases this : u = t
      · subst this
        rw [Function.update_self] at answered
        rcases (step_branch ran).answered (oneAtATime reached) rfl rfl answered with earlier | home
        · exact own u request child earlier
        · exact home
      · rw [Function.update_of_ne this] at answered
        exact own u request child answered

/-- What a step writes down about relays: nothing, or the end of the one it
    ends. -/
theorem ended_after (branch : Branch config s t input job s' job') (history : History Tid) :
    (history.after config t s s' job job').ended = history.ended ∨
    ∃ request child, job = .Serving request child ∧ job' = .Touching request child ∧
      (history.after config t s s' job job').ended = Function.update history.ended child (some s.clock) := by
  cases branch with
  | relays request child => exact .inr ⟨request,child,rfl,rfl,rfl⟩
  | passes _ kind => cases kind <;> exact .inl rfl
  | _ => exact .inl rfl

/-- After a step, a relay that has ended has marked its use in the slot, or is about to. -/
theorem Fresh.slotted_after {history : History Tid} (fresh : Fresh before history)
    (reached : Transition.Reaches (router config Tid) NoStop before)
    (ran : (before.jobs t).step config input before.shared t = some (after.shared,job'))
    (jobs : after.jobs = Function.update before.jobs t job') {child : Child} {time : ℕ} {held : Loaded Child}
    (ended : history.ended child = some time) (there : after.shared.slots child.id = some held) :
    time ≤ held.lastUsed ∨ ∃ u request, (after.jobs u).touches = some (request,child) := by
  have branch := step_branch ran
  rcases branch.marked child.id held there with was | now | ⟨request,placing,same⟩
  · rcases fresh.slotted child time held ended was with marked | ⟨u,request,touches⟩
    · exact .inl marked
    · by_cases this : u = t
      · subst this
        -- The thread that relayed marks the use in this very step.
        left
        have home := own reached u request child (touches_answered touches)
        rw [branch.touched touches,← home,Function.update_self,was] at there
        have marked : before.shared.clock = held.lastUsed := congrArg Loaded.lastUsed (Option.some.inj there)
        rw [← marked]
        exact fresh.past child time ended
      · right
        rw [jobs]
        exact ⟨u,request,by rw [Function.update_of_ne this]; exact touches⟩
  · left
    rw [now]
    exact fresh.past child time ended
  · exact .inl (fresh.placing child time t request held ended placing same)

/-- What waits to be placed after a step was measured later than every relay that has ended. -/
theorem Fresh.placing_after {history : History Tid} (fresh : Fresh before history)
    (ran : (before.jobs t).step config input before.shared t = some (after.shared,job'))
    (jobs : after.jobs = Function.update before.jobs t job') {child : Child} {time : ℕ} {u : Tid} {request : Request}
    {loaded : Loaded Child} (ended : history.ended child = some time)
    (doing : after.jobs u = .Admitting request (.Placing loaded)) (same : request.entry.id = child.id) :
    time ≤ loaded.lastUsed := by
  rw [jobs] at doing
  by_cases this : u = t
  · subst this
    rw [Function.update_self] at doing
    rw [(step_branch ran).placing doing]
    exact fresh.past child time ended
  · rw [Function.update_of_ne this] at doing
    exact fresh.placing child time u request loaded ended doing same

theorem Fresh.step [Fintype Tid] {history history' : History Tid} (fresh : Fresh before history)
    (reached : Transition.Reaches (router config Tid) NoStop before)
    (steps : (recorded config Tid).step (before,history) event = some (after,history')) : Fresh after history' := by
  rcases recorded_cases steps with ⟨jobs,slots,later,rfl⟩ | ⟨t,input,job,ran,jobs,rfl⟩
  · refine ⟨fun child time ended => (fresh.past child time ended).trans later,fun child time held ended there => ?_,
      fun child time t request loaded ended doing => fresh.placing child time t request loaded ended (jobs ▸ doing)⟩
    rw [slots] at there
    rw [jobs]
    exact fresh.slotted child time held ended there
  have branch := step_branch ran
  have clock := branch.clock
  rcases ended_after branch history with same | ⟨request,relayed,serving,touching,now⟩
  · refine ⟨fun child time ended => ?_,fun child time held ended => ?_,fun child time u request loaded ended => ?_⟩
    · rw [clock]
      exact fresh.past child time (same ▸ ended)
    · exact fresh.slotted_after reached ran jobs (same ▸ ended)
    · exact fresh.placing_after ran jobs (same ▸ ended)
  refine ⟨fun child time ended => ?_,fun child time held ended there => ?_,fun child time u asked loaded ended doing here => ?_⟩
  · rw [now] at ended
    rw [clock]
    by_cases this : child = relayed
    · subst this
      rw [Function.update_self] at ended
      cases ended
      exact le_rfl
    · rw [Function.update_of_ne this] at ended
      exact fresh.past child time ended
  · rw [now] at ended
    by_cases this : child = relayed
    · subst this
      refine .inr ⟨t,request,?_⟩
      rw [jobs,Function.update_self,touching]
      rfl
    · rw [Function.update_of_ne this] at ended
      exact fresh.slotted_after reached ran jobs ended there
  · rw [now] at ended
    by_cases this : child = relayed
    · subst this
      -- What was relayed from is in its slot, and a slot that is to be filled is empty.
      have slotted := handed_in_slot reached t child (by rw [serving]; rfl)
      obtain ⟨held,there,_⟩ := inSlot_pos.mp (by rw [slotted]; exact Nat.one_ne_zero)
      have other : u ≠ t := by
        rintro rfl
        rw [jobs,Function.update_self,touching] at doing
        cases doing
      rw [jobs,Function.update_of_ne other] at doing
      have empty := ((oneAtATime reached).sound u asked _ doing).1
      rw [here,there] at empty
      cases empty
    · rw [Function.update_of_ne this] at ended
      exact fresh.placing_after ran jobs ended doing here

theorem fresh [Fintype Tid] {both : State Tid × History Tid}
    (reached : Transition.Reaches (recorded config Tid) (fun both => NoStop both.1) both) : Fresh both.1 both.2 := by
  refine Transition.Reaches.invariant (P := fun both : State Tid × History Tid => Fresh both.1 both.2) ?_
    (fun before event after reached fresh _ steps => fresh.step reached.unrecorded steps) reached
  exact ⟨fun child time ended => (by cases ended),fun child time held ended => (by cases ended),
    fun child time t request loaded ended => (by cases ended)⟩

end Latest

/-! ## What a sweep has named -/

/-- What the snapshot of a sweep has seen of the entries it has read. -/
def Looked (config : Config) (rest : List Entry) (seen : List Admission.Loaded) : Prop :=
  ∃ read, config.catalog.entries = read ++ rest ∧ (seen.map Admission.Loaded.id).Sublist (read.map Entry.id) ∧
    ∀ record ∈ seen, ∃ entry ∈ read, entry.id = record.id ∧ entry.residency = record.residency

/-- The names are of entries held loaded only on demand. -/
def Unloadable (config : Config) (ids : List String) : Prop :=
  ∀ id ∈ ids, ∃ entry ∈ config.catalog.entries, entry.id = id ∧ entry.residency = .OnDemand

/-- What a sweep has named is what it has emptied, and it goes on to others. -/
def Sweeps (config : Config) (emptied : List String) : Job → Prop
  | .Expiring _ rest seen => Looked config rest seen
  | .Sweeping (.Idle _) rest named => Unloadable config rest ∧ (emptied ++ rest).Nodup ∧ named.map Prod.fst = emptied
  | .Swept (.Idle _) _ said rest named =>
    Unloadable config rest ∧ (emptied ++ rest).Nodup ∧ named.map Prod.fst ++ [said.1] = emptied
  | _ => True

section Named
variable {Tid : Type} {config : Config} {slots : Table Child} {id : String} {seen : List Admission.Loaded}
  {window : Option ℕ} {now : ℕ}

theorem Looked.snoc {s : Shared Tid} {entry : Entry} {rest : List Entry} (looked : Looked config (entry :: rest) seen) :
    Looked config rest (seen ++ s.seen entry) := by
  obtain ⟨read,all,part,each⟩ := looked
  refine ⟨read ++ [entry],by rw [all,List.append_assoc]; rfl,?_,fun record member => ?_⟩
  · rw [List.map_append,List.map_append]
    refine part.append ?_
    rw [Shared.seen]
    cases s.slots entry.id with
    | none => exact List.nil_sublist _
    | some held => exact List.Sublist.refl _
  · rcases List.mem_append.mp member with earlier | latest
    · obtain ⟨other,inside,same⟩ := each record earlier
      exact ⟨other,List.mem_append_left _ inside,same⟩
    · refine ⟨entry,List.mem_append_right _ (List.mem_singleton_self _),?_⟩
      obtain ⟨held,_,is⟩ := Option.map_eq_some_iff.mp (Option.mem_toList.mp latest)
      rw [← is]
      exact ⟨rfl,rfl⟩

theorem mem_expired (member : id ∈ expired window seen now) :
    ∃ record ∈ seen, record.id = id ∧ record.residency = .OnDemand := by
  cases window with
  | none => cases member
  | some duration =>
    obtain ⟨record,sorted,same⟩ := List.mem_map.mp member
    have kept := (List.perm_insertionSort ..).subset sorted
    rw [List.mem_filter] at kept
    simp only [Bool.and_eq_true,decide_eq_true_eq] at kept
    exact ⟨record,kept.1,same,kept.2.1.1⟩

theorem expired_nodup (distinct : (seen.map Admission.Loaded.id).Nodup) : (expired window seen now).Nodup := by
  cases window with
  | none => exact List.nodup_nil
  | some duration =>
    refine ((List.perm_insertionSort ..).map Admission.Loaded.id).nodup_iff.mpr ?_
    exact distinct.sublist (List.filter_sublist.map Admission.Loaded.id)

/-- A snapshot of the whole catalog names on-demand entries, each once. -/
theorem Looked.expired (looked : Looked config [] seen) (window : Option ℕ) (now : ℕ) :
    Unloadable config (expired window seen now) ∧ (expired window seen now).Nodup := by
  obtain ⟨read,all,part,each⟩ := looked
  rw [List.append_nil] at all
  refine ⟨fun id member => ?_,expired_nodup ?_⟩
  · obtain ⟨record,inside,same,onDemand⟩ := mem_expired member
    obtain ⟨entry,known,own,residency⟩ := each record inside
    exact ⟨entry,all ▸ known,own.trans same,residency.trans onDemand⟩
  · exact (all ▸ config.catalog.distinct : (read.map Entry.id).Nodup).sublist part

/-- Emptying one slot empties that one. -/
theorem emptiedBetween_one {held : Loaded Child} (there : slots id = some held) (known : id ∈ config.ids) :
    emptiedBetween config slots (Function.update slots id none) = [id] := by
  have only : ∀ other ∈ config.ids, ((slots other).isSome && (Function.update slots id none other).isNone) = (other == id) := by
    intro other _
    by_cases this : other = id
    · subst this
      rw [there,Function.update_self]
      simp
    · rw [Function.update_of_ne this]
      cases slots other <;> simp [this]
  rw [emptiedBetween,List.filter_congr only,List.filter_beq]
  have once : config.ids.count id = 1 := List.count_eq_one_of_mem config.catalog.distinct known
  rw [once]
  rfl

end Named

section Sweeping
variable {Tid : Type} [DecidableEq Tid] {config : Config} {input : Input} {s s' : Shared Tid} {job job' : Job} {t : Tid}
  {history : History Tid}

/-- A step of the thread itself. -/
theorem Branch.sweeps (branch : Branch config s t input job s' job')
    (home : ∀ id held, s.slots id = some held → held.child.id = id ∧ id ∈ config.ids)
    (sweeps : Sweeps config (history.emptied t) job) :
    Sweeps config ((history.after config t s s' job job').emptied t) job' := by
  cases branch with
  | swept => exact ⟨[],rfl,List.Sublist.refl _,fun record inside => (by cases inside)⟩
  | looks => exact sweeps.snoc
  | expires =>
    obtain ⟨unloadable,distinct⟩ := sweeps.expired config.idleWindow.duration _
    refine ⟨unloadable,?_,?_⟩
    · rw [History.after_begins,List.nil_append]
      exact distinct
    · rw [History.after_begins]
      rfl
  | passes _ kind id rest named =>
    cases kind with
    | Exited => trivial
    | Idle now =>
      obtain ⟨unloadable,distinct,named⟩ := sweeps
      rw [History.after_sweeps,emptiedBetween_same,List.append_nil]
      exact ⟨fun other member => unloadable other (List.mem_cons_of_mem _ member),
        distinct.sublist ((List.sublist_cons_self _ _).append_left _),named⟩
  | unloads _ now id rest named held duration there =>
    obtain ⟨unloadable,distinct,named⟩ := sweeps
    have one : emptiedBetween config s.slots (s.put id none).slots = [id] := emptiedBetween_one there (home id held there).2
    rw [History.after_sweeps,one]
    refine ⟨fun other member => unloadable other (List.mem_cons_of_mem _ member),?_,by rw [named]⟩
    rw [List.append_assoc]
    exact distinct
  | names _ kind child said rest named =>
    cases kind with
    | Exited => trivial
    | Idle now =>
      obtain ⟨unloadable,distinct,named⟩ := sweeps
      refine ⟨unloadable,distinct,?_⟩
      rw [List.map_append]
      exact named
  | admits _ _ _ _ _ branch => cases branch <;> trivial
  | _ => trivial

/-- The record of another thread's sweep stays. -/
theorem emptied_other {u : Tid} (other : u ≠ t) (branch : Branch config s t input job s' job') :
    (history.after config t s s' job job').emptied u = history.emptied u := by
  cases branch with
  | expires => exact Function.update_of_ne other ..
  | unloads => exact Function.update_of_ne other ..
  | reaped => exact Function.update_of_ne other ..
  | passes _ kind =>
    cases kind with
    | Exited => rfl
    | Idle now => exact Function.update_of_ne other ..
  | _ => rfl

theorem sweeps {allowed : State Tid → Event Tid → Prop} {both : State Tid × History Tid}
    (reached : Transition.Reaches (recorded config Tid) (fun both => allowed both.1) both) (t : Tid) :
    Sweeps config (both.2.emptied t) (both.1.jobs t) := by
  refine Transition.Reaches.invariant
    (P := fun both : State Tid × History Tid => ∀ t, Sweeps config (both.2.emptied t) (both.1.jobs t)) ?_
    (fun before event after reached sweeps _ steps u => ?_) reached t
  · intro t
    exact trivial
  rcases recorded_cases steps with ⟨jobs,_,_,history⟩ | ⟨t,input,job,ran,jobs,history⟩
  · rw [jobs,history]
    exact sweeps u
  · rw [jobs,history]
    by_cases this : u = t
    · subst this
      rw [Function.update_self]
      exact (step_branch ran).sweeps (oneAtATime reached.unrecorded).home (sweeps u)
    · rw [Function.update_of_ne this,emptied_other this (step_branch ran)]
      exact sweeps u

end Sweeping

/-! ## The sweep -/

section Idle
variable {Tid : Type} [DecidableEq Tid] [Fintype Tid] {config : Config}

/-- The step in which an idle sweep empties a slot: its handle is the only
    reference, and the mark of its use is a window old. -/
theorem idle_take {state after : State Tid} {allowed : State Tid → Event Tid → Prop}
    (reached : Transition.Reaches (router config Tid) allowed state) {t : Tid} {input : Input} {now : ℕ} {rest : List String}
    {named : List (String × Option String)} (sweeping : state.jobs t = .Sweeping (.Idle now) rest named)
    (steps : state.step config (.Act t input) = some after) {id : String} {held : Loaded Child}
    (there : state.shared.slots id = some held) (emptied : after.shared.slots id = none) :
    id ∈ rest ∧ state.shared.strong held.child = 1 ∧ (∀ u, held.child ∉ (state.jobs u).holds) ∧
    ∃ duration, config.idleWindow.duration = some duration ∧ held.lastUsed + duration ≤ now := by
  have ran : ∃ job, (state.jobs t).step config input state.shared t = some (after.shared,job) := by
    rcases act_cases steps with ⟨_,advances⟩ | ⟨other,_,_,rfl⟩ | ⟨other,advanced,_,_,advances,rfl⟩
    · obtain ⟨job,ran,_⟩ := advance_cases advances
      exact ⟨job,ran⟩
    · rw [there] at emptied
      cases emptied
    · obtain ⟨job,ran,_⟩ := advance_cases advances
      exact ⟨job,ran⟩
  obtain ⟨job,ran⟩ := ran
  have branch := step_branch ran
  rw [sweeping] at branch
  generalize made : after.shared = shared at branch
  rw [made] at emptied
  cases branch with
  | passes =>
    rw [there] at emptied
    cases emptied
  | reaped =>
    rw [there] at emptied
    cases emptied
  | unloads _ _ taken rest _ loaded duration here idle window old =>
    have same : id = taken := by
      by_contra different
      change Function.update state.shared.slots taken none id = none at emptied
      rw [Function.update_of_ne different,there] at emptied
      cases emptied
    subst same
    rw [there] at here
    cases here
    have counted := counted_reaches reached
    have slotted : inSlot state.shared.slots held.child = 1 := by
      refine inSlot_eq_one ?_ rfl
      rw [((oneAtATime reached).home id held there).1]
      exact there
    have count := counted.count held.child
    have nobody : ∀ u, held.child ∉ (state.jobs u).holds := by
      intro u holds
      have more := counted.holder holds
      omega
    refine ⟨List.mem_cons_self,by omega,nobody,duration,window,?_⟩
    have positive : duration ≠ 0 := by
      rintro rfl
      exact config.idleWindow.positive window
    have stale : duration ≤ now - held.lastUsed := of_decide_eq_true old
    omega

/-- Whatever the order of the steps, when an idle sweep empties a slot: the entry
    is on-demand, nobody has a child of it, the slot's handle is the only
    reference, and its latest use, a relay of it included, is a window old. What
    the sweep returns are the slots it emptied, each once. -/
theorem idle_sweep {state : State Tid} {history : History Tid}
    (reached : Transition.Reaches (recorded config Tid) (fun both => NoStop both.1) (state,history)) :
    (∀ t now rest named id held input after, state.jobs t = .Sweeping (.Idle now) rest named →
      state.shared.slots id = some held → state.step config (.Act t input) = some after → after.shared.slots id = none →
      (∃ entry ∈ config.catalog.entries, entry.id = id ∧ entry.residency = .OnDemand) ∧
      state.shared.strong held.child = 1 ∧ (∀ u child, (state.jobs u).handed = some child → child.id ≠ id) ∧
      ∃ duration, config.idleWindow.duration = some duration ∧ held.lastUsed + duration ≤ now ∧
        ∀ child time, child.id = id → history.ended child = some time → time + duration ≤ now) ∧
    ∀ t now named, state.jobs t = .Sweeping (.Idle now) [] named →
      named.map Prod.fst = history.emptied t ∧ (named.map Prod.fst).Nodup := by
  have plain := reached.unrecorded
  refine ⟨fun t now rest named id held input after sweeping there steps emptied => ?_,fun t now named sweeping => ?_⟩
  · obtain ⟨target,alone,nobody,duration,window,old⟩ := idle_take plain sweeping steps there emptied
    have sweeps := sweeps reached t
    rw [sweeping] at sweeps
    have reading (u : Tid) (child : Child) (handed : (state.jobs u).handed = some child) : child.id ≠ id := by
      rintro rfl
      have slotted := handed_in_slot plain u child handed
      obtain ⟨other,here,same⟩ := inSlot_pos.mp (by rw [slotted]; exact Nat.one_ne_zero)
      rw [there] at here
      cases here
      refine nobody u ?_
      rw [Job.handed_holds handed,same]
      exact List.mem_singleton_self _
    refine ⟨sweeps.1 id target,alone,reading,duration,window,old,fun child time own ended => ?_⟩
    rcases (fresh reached).slotted child time held ended (own ▸ there) with marked | ⟨u,request,touches⟩
    · omega
    · exact absurd own (reading u child (answered_handed (touches_answered touches)))
  · have sweeps := sweeps reached t
    rw [sweeping] at sweeps
    obtain ⟨_,distinct,named⟩ := sweeps
    rw [named]
    rw [List.append_nil] at distinct
    exact ⟨rfl,distinct⟩

end Idle

/-- When the sweep of a thread read the clock, where it has one to finish. -/
def Job.sweepsAt : Job → Option (ℕ × List String × List (String × Option String))
  | .Sweeping (.Idle now) rest named => some (now, rest, named)
  | _ => none

theorem sweepsAt_spec {job : Job} {now : ℕ} {rest : List String} {named : List (String × Option String)}
    (sweeps : job.sweepsAt = some (now,rest,named)) : job = .Sweeping (.Idle now) rest named := by
  cases job with
  | Sweeping kind =>
    cases kind with
    | Exited => cases sweeps
    | Idle => cases sweeps; rfl
  | _ => cases sweeps

/-- A model is relayed from once, its window passes, and the sweep takes it. -/
theorem idle_model_taken : ∃ state history, Transition.Reaches (recorded oneModel Bool) (fun both => NoStop both.1) (state,history) ∧
    ∃ held, state.shared.slots "m" = some held ∧ state.shared.strong held.child = 1 ∧ history.ended ⟨0,"m"⟩ = some 0 ∧
    ∃ after, state.step oneModel (.Act true .Go) = some after ∧ after.shared.slots "m" = none ∧ 0 + 1 ≤ 2 := by
  have passes : ((recorded oneModel Bool).run (fun both => noStop both.1) (recorded oneModel Bool).initial
      (spawning false ++ serving 8 false ++ leaving false ++ [.Tick,.Tick] ++ reaping true ++ [.Act true .Go])).any
      (fun both => (both.1.jobs true).sweepsAt = some (2,["m"],[]) ∧ (both.1.shared.slots "m").isSome ∧
        both.2.ended ⟨0,"m"⟩ = some 0 ∧
        (both.1.step oneModel (.Act true .Go)).any fun after => after.shared.slots "m" = none) = true := by
    decide +kernel
  obtain ⟨⟨state,history⟩,reached,checked⟩ := Transition.exists_of_run (fun both => noStop_spec both.1) passes
  obtain ⟨sweeps,occupied,ended,takes⟩ := of_decide_eq_true checked
  obtain ⟨held,there⟩ := Option.isSome_iff_exists.mp occupied
  obtain ⟨after,steps,emptied⟩ := (Option.any_eq_true ..).mp takes
  have empty : after.shared.slots "m" = none := of_decide_eq_true emptied
  obtain ⟨_,alone,_,duration,window,_,late⟩ :=
    (idle_sweep reached).1 true 2 ["m"] [] "m" held .Go after (sweepsAt_spec sweeps) there steps empty
  cases window
  exact ⟨state,history,reached,held,there,alone,ended,after,steps,empty,late ⟨0,"m"⟩ 0 rfl ended⟩

end Maestro.Threads
