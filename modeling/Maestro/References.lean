import Maestro.Admissions
import Maestro.Holders

/-!
# The count of references tells who is reading

The references to a child are the slot's own and those the threads hold. A child
with no reference left has been reaped, so that a slot is only ever emptied of a
child that nobody else holds: one that a thread was handed stays where it is.
-/
namespace Maestro.Threads
open Slots (Loaded Slot Table)

/-- The references a thread holds to one child. -/
def refs (job : Job) (child : Child) : ℕ := job.holds.count child

/-- One for the child itself. -/
def one (a c : Child) : ℕ := if a = c then 1 else 0

/-- The slot's own reference. -/
def inSlot (slots : Table Child) (child : Child) : ℕ := if (slots child.id).map Loaded.child = some child then 1 else 0

/-! ## Small facts -/

section Facts
variable {Tid : Type} {self : Shared Tid} {slots after : Table Child} {a c : Child}

theorem one_self (c : Child) : one c c = 1 := if_pos rfl

theorem one_ne (different : a ≠ c) : one a c = 0 := if_neg different

theorem clone_strong : (self.clone a).strong c = self.strong c + one a c := by
  by_cases this : c = a
  · subst this
    rw [one_self]
    exact Function.update_self ..
  · rw [one_ne (Ne.symm this)]
    exact Function.update_of_ne this ..

theorem release_strong : (self.release a).strong c = self.strong c - one a c := by
  by_cases this : c = a
  · subst this
    rw [one_self]
    exact Function.update_self ..
  · rw [one_ne (Ne.symm this)]
    exact Function.update_of_ne this ..

theorem release_life_ne (different : c ≠ a) : (self.release a).life c = self.life c := by
  rw [Shared.release]
  split_ifs
  · exact Function.update_of_ne different ..
  · rfl

theorem release_life_last (last : self.strong a = 1) : (self.release a).life a = (self.life a).stopped := by
  rw [Shared.release,if_pos last]
  exact Function.update_self ..

theorem release_life_more (more : self.strong a ≠ 1) : (self.release a).life = self.life := by
  rw [Shared.release,if_neg more]

theorem stopped_unborn {life : Life} : life.stopped = .Unborn ↔ life = .Unborn := by cases life <;> simp [Life.stopped]

theorem stopped_reaped {life : Life} (born : life ≠ .Unborn) : life.stopped.isReaped = true := by
  cases life with
  | Unborn => exact absurd rfl born
  | Running => rfl
  | Exited status => rfl
  | Reaped status => rfl

theorem refs_of_cons {job : Job} {rest : List Child} (holds : job.holds.Perm (a :: rest)) :
    refs job c = rest.count c + one a c := by
  rw [refs,holds.count_eq,List.count_cons,one]
  simp

theorem refs_of_single {job : Job} (holds : job.holds = [a]) : refs job c = one a c := by
  rw [refs_of_cons (List.Perm.of_eq holds),List.count_nil,Nat.zero_add]

theorem refs_pos {job : Job} : refs job c ≠ 0 ↔ c ∈ job.holds := by rw [refs,Ne,List.count_eq_zero,not_not]

theorem inSlot_eq_one {held : Loaded Child} (there : slots c.id = some held) (same : held.child = c) : inSlot slots c = 1 := by
  rw [inSlot,there,Option.map_some,same,if_pos rfl]

theorem inSlot_pos : inSlot slots c ≠ 0 ↔ ∃ held, slots c.id = some held ∧ held.child = c := by
  rw [inSlot,Ne,ite_eq_right_iff,Classical.not_imp,Option.map_eq_some_iff]
  simp

theorem inSlot_le_one (slots : Table Child) (c : Child) : inSlot slots c ≤ 1 := by
  rw [inSlot]
  split_ifs <;> omega

theorem Stamped.inSlot (stamped : Stamped slots after) : inSlot after c = inSlot slots c := by
  have same : (after c.id).map Loaded.child = (slots c.id).map Loaded.child := by
    have both := congrArg (Option.map Prod.fst) (stamped c.id)
    rw [Option.map_map,Option.map_map] at both
    exact both
  rw [Threads.inSlot,same,Threads.inSlot]

/-- Emptying a slot gives up its own reference and no other. -/
theorem inSlot_update_none {id : String} {held : Loaded Child} (there : slots id = some held) (home : held.child.id = id) :
    inSlot slots c = inSlot (Function.update slots id none) c + one held.child c := by
  by_cases this : c.id = id
  · subst this
    rw [inSlot,inSlot,there,Function.update_self,Option.map_some,one]
    by_cases same : held.child = c <;> simp [same]
  · have different : held.child ≠ c := fun same => this (by rw [← same,home])
    rw [inSlot,inSlot,Function.update_of_ne this,one_ne different,Nat.add_zero]

/-- Filling an empty slot makes its reference. -/
theorem inSlot_update_some {id : String} {held : Loaded Child} (empty : slots id = none) (home : held.child.id = id) :
    inSlot (Function.update slots id (some held)) c = inSlot slots c + one held.child c := by
  by_cases this : c.id = id
  · subst this
    rw [inSlot,inSlot,empty,Function.update_self,Option.map_some,one]
    by_cases same : held.child = c <;> simp [same]
  · have different : held.child ≠ c := fun same => this (by rw [← same,home])
    rw [inSlot,inSlot,Function.update_of_ne this,one_ne different,Nat.add_zero]

theorem place_strong {id : String} {loaded : Loaded Child} (empty : self.slots id = none) :
    (self.place id loaded).strong = (self.clone loaded.child).strong := by
  rw [Shared.place,empty]
  rfl

theorem place_life {id : String} {loaded : Loaded Child} (empty : self.slots id = none) :
    (self.place id loaded).life = self.life := by
  rw [Shared.place,empty]
  rfl

theorem mourns_holds {job : Job} {c : Child} (mourns : job.mourns = some c) : job.holds = [c] := by
  cases job with
  | Swept kind child said rest named =>
    cases kind with
    | Exited =>
      cases mourns
      rfl
    | Idle now => cases mourns
  | _ => cases mourns

/-- A sweep's next step drops what it found exited. -/
theorem mourning_ends {config : Config} {input : Input} {s s' : Shared Tid} {t : Tid} {job job' : Job} {c : Child}
    (mourns : job.mourns = some c) (steps : job.step config input s t = some (s',job')) : job'.holds = [] := by
  cases job with
  | Swept kind child said rest named =>
    cases steps
    rfl
  | _ => cases mourns

/-- What a step that places a child finds: the slot is empty and its entry is
    the child's own. -/
def Ready (s : Shared Tid) (job : Job) : Prop :=
  ∀ request loaded, job = .Admitting request (.Placing loaded) →
    s.slots request.entry.id = none ∧ loaded.child.id = request.entry.id

theorem OneAtATime.ready {config : Config} {state : State Tid} (alone : OneAtATime config state) (t : Tid) :
    Ready state.shared (state.jobs t) := by
  intro request loaded is
  obtain ⟨empty,_,home⟩ := alone.sound t request _ is
  exact ⟨empty,home⟩

end Facts

/-! ## The processes

What the counts tell about the processes says nothing about who holds what, and
each thing a step does to the counts keeps it. -/

section Lives
variable {Tid : Type}

/-- A process is born once, is held by nobody before, and is reaped with its last
    reference. -/
structure Lives (s : Shared Tid) : Prop where
  born : ∀ c, s.life c ≠ .Unborn → c.pid < s.next
  unborn : ∀ c, s.life c = .Unborn → s.strong c = 0
  ended : ∀ c, s.life c ≠ .Unborn → s.strong c = 0 → (s.life c).isReaped = true

variable {s s' : Shared Tid} {a : Child}

theorem Lives.fresh (lives : Lives s) (id : String) : s.life (s.fresh id) = .Unborn := by
  by_contra born
  exact Nat.lt_irrefl _ (lives.born _ born)

theorem Lives.is_born (lives : Lives s) (held : 1 ≤ s.strong a) : s.life a ≠ .Unborn := by
  intro unborn
  have := lives.unborn a unborn
  omega

theorem Lives.same (lives : Lives s) (strong : s'.strong = s.strong) (life : s'.life = s.life) (next : s'.next = s.next) :
    Lives s' where
  born := by
    rw [life,next]
    exact lives.born
  unborn := by
    rw [life,strong]
    exact lives.unborn
  ended := by
    rw [life,strong]
    exact lives.ended

/-- One reference more on a child that has one. -/
theorem Lives.cloned (lives : Lives s) (held : 1 ≤ s.strong a) (strong : s'.strong = (s.clone a).strong)
    (life : s'.life = s.life) (next : s'.next = s.next) : Lives s' where
  born := by
    rw [life,next]
    exact lives.born
  unborn c unborn := by
    rw [life] at unborn
    have different : a ≠ c := fun same => lives.is_born held (same ▸ unborn)
    rw [strong,clone_strong,lives.unborn c unborn,one_ne different]
  ended c born none_left := by
    rw [life] at born ⊢
    rw [strong,clone_strong] at none_left
    exact lives.ended c born (by omega)

/-- Dropping a reference that is there reaps the child with the last one. -/
theorem released (lives : Lives s) (held : 1 ≤ s.strong a) (strong : s'.strong = (s.release a).strong)
    (life : s'.life = (s.release a).life) (c : Child) :
    (s'.life c = s.life c ∧ (s'.strong c = 0 → s.strong c = 0)) ∨
    (s.life c ≠ .Unborn ∧ s'.strong c = 0 ∧ s'.life c = (s.life c).stopped) := by
  by_cases this : c = a
  · subst this
    by_cases last : s.strong c = 1
    · right
      refine ⟨lives.is_born held,?_,by rw [life,release_life_last last]⟩
      rw [strong,release_strong,one_self,last]
    · left
      refine ⟨by rw [life,release_life_more last],fun none_left => ?_⟩
      rw [strong,release_strong,one_self] at none_left
      omega
  · left
    refine ⟨by rw [life,release_life_ne this],fun none_left => ?_⟩
    rw [strong,release_strong,one_ne (Ne.symm this)] at none_left
    omega

theorem Lives.released (lives : Lives s) (held : 1 ≤ s.strong a) (strong : s'.strong = (s.release a).strong)
    (life : s'.life = (s.release a).life) (next : s'.next = s.next) : Lives s' := by
  have each := Threads.released lives held strong life
  refine ⟨fun c born => ?_,fun c unborn => ?_,fun c born none_left => ?_⟩
  · rw [next]
    rcases each c with ⟨same,_⟩ | ⟨before,_⟩
    · exact lives.born c (same ▸ born)
    · exact lives.born c before
  · rcases each c with ⟨same,_⟩ | ⟨before,_,stopped⟩
    · rw [strong,release_strong,lives.unborn c (same ▸ unborn),Nat.zero_sub]
    · exact absurd (stopped_unborn.mp (stopped ▸ unborn)) before
  · rcases each c with ⟨same,zero⟩ | ⟨before,_,stopped⟩
    · rw [same]
      exact lives.ended c (same ▸ born) (zero none_left)
    · rw [stopped]
      exact stopped_reaped before

/-- A child found exited is reaped where it stands, its references kept. -/
theorem Lives.waited (lives : Lives s) (held : 1 ≤ s.strong a) (strong : s'.strong = s.strong)
    (life : s'.life = Function.update s.life a (s.life a).stopped) (next : s'.next = s.next) : Lives s' := by
  have born := lives.is_born held
  have other {c : Child} (different : c ≠ a) : s'.life c = s.life c := by
    rw [life]
    exact Function.update_of_ne different ..
  have own : s'.life a = (s.life a).stopped := by
    rw [life]
    exact Function.update_self ..
  refine ⟨fun c is => ?_,fun c unborn => ?_,fun c is none_left => ?_⟩
  · rw [next]
    by_cases this : c = a
    · exact lives.born c (this ▸ born)
    · exact lives.born c (other this ▸ is)
  · by_cases this : c = a
    · subst this
      rw [own,stopped_unborn] at unborn
      exact absurd unborn born
    · rw [strong]
      exact lives.unborn c (other this ▸ unborn)
  · by_cases this : c = a
    · subst this
      rw [own]
      exact stopped_reaped born
    · rw [other this]
      rw [strong] at none_left
      exact lives.ended c (other this ▸ is) none_left

theorem spawn_own (s : Shared Tid) (id : String) :
    (s.spawn id).life (s.fresh id) = .Running ∧ (s.spawn id).strong (s.fresh id) = 1 :=
  ⟨Function.update_self ..,Function.update_self ..⟩

theorem spawn_other {id : String} {c : Child} (different : c ≠ s.fresh id) :
    (s.spawn id).life c = s.life c ∧ (s.spawn id).strong c = s.strong c :=
  ⟨Function.update_of_ne different ..,Function.update_of_ne different ..⟩

theorem Lives.spawned (lives : Lives s) (id : String) : Lives (s.spawn id) := by
  have more : (s.spawn id).next = s.next + 1 := rfl
  refine ⟨fun c born => ?_,fun c is => ?_,fun c born none_left => ?_⟩ <;> by_cases this : c = s.fresh id
  · rw [this,more]
    exact Nat.lt_succ_self _
  · rw [more]
    exact Nat.lt_succ_of_lt (lives.born c ((spawn_other this).1 ▸ born))
  · rw [this,(spawn_own s id).1] at is
    cases is
  · rw [(spawn_other this).2]
    exact lives.unborn c ((spawn_other this).1 ▸ is)
  · rw [this,(spawn_own s id).2] at none_left
    cases none_left
  · rw [(spawn_other this).1]
    exact lives.ended c ((spawn_other this).1 ▸ born) ((spawn_other this).2 ▸ none_left)

end Lives

/-! ## The invariant -/

section Counted
variable {Tid : Type} [Fintype Tid] {config : Config}

/-- Every reference is counted, a process is born once and reaped with its last
    reference, and nothing but a sweep that found it exited holds a reaped
    child. -/
structure Counted (s : Shared Tid) (jobs : Tid → Job) : Prop where
  count : ∀ c, s.strong c = inSlot s.slots c + Holders.held refs jobs c
  born : ∀ c, s.life c ≠ .Unborn → c.pid < s.next
  unborn : ∀ c, s.life c = .Unborn → s.strong c = 0
  ended : ∀ c, s.life c ≠ .Unborn → s.strong c = 0 → (s.life c).isReaped = true
  reaped : ∀ c, (s.life c).isReaped = true → inSlot s.slots c = 0 ∧ ∀ t, c ∈ (jobs t).holds → (jobs t).mourns = some c

variable {s : Shared Tid} {jobs : Tid → Job} {c : Child}

theorem Counted.holder (counted : Counted s jobs) {t : Tid} (holds : c ∈ (jobs t).holds) :
    inSlot s.slots c + 1 ≤ s.strong c := by
  have here := Holders.le_held refs jobs t c
  have some_ref := Nat.pos_of_ne_zero (refs_pos.mpr holds)
  rw [counted.count c]
  omega

/-- A child that no slot and no thread holds has been reaped. -/
theorem Counted.gone (counted : Counted s jobs) (born : s.life c ≠ .Unborn) (unslotted : inSlot s.slots c = 0)
    (nobody : ∀ t, c ∉ (jobs t).holds) : (s.life c).isReaped = true := by
  refine counted.ended c born ?_
  rw [counted.count c,unslotted,Nat.zero_add,Holders.held_eq_zero_iff]
  exact fun t => not_not.mp (mt refs_pos.mp (nobody t))

theorem Counted.lives (counted : Counted s jobs) : Lives s := ⟨counted.born,counted.unborn,counted.ended⟩

/-- What is in a slot has not been reaped. -/
theorem Counted.slotted (counted : Counted s jobs) (slotted : inSlot s.slots c ≠ 0) : (s.life c).isReaped = false := by
  by_contra reaped
  exact slotted (counted.reaped c (Bool.not_eq_false _ ▸ reaped)).1

/-- Every child in a slot is held. -/
theorem Counted.in_slot (counted : Counted s jobs) (home : ∀ id held, s.slots id = some held → held.child.id = id)
    {id : String} {held : Loaded Child} (there : s.slots id = some held) :
    inSlot s.slots held.child = 1 ∧ 1 ≤ s.strong held.child ∧ (s.life held.child).isReaped = false := by
  have slotted : inSlot s.slots held.child = 1 := by
    refine inSlot_eq_one ?_ rfl
    rw [home id held there]
    exact there
  have count := counted.count held.child
  exact ⟨slotted,by omega,counted.slotted (by omega)⟩

/-- Where nothing is left of a child's references, no slot and no thread holds it. -/
theorem nothing_left (count : s.strong c = inSlot s.slots c + Holders.held refs jobs c)
    (zero : s.strong c = 0) : inSlot s.slots c = 0 ∧ ∀ u, c ∉ (jobs u).holds := by
  rw [zero] at count
  refine ⟨by omega,fun u holds => ?_⟩
  have nobody : Holders.held refs jobs c = 0 := by omega
  exact absurd (Holders.held_eq_zero_iff.mp nobody u) (refs_pos.mpr holds)

variable {s' : Shared Tid} {t : Tid} {job' : Job}

theorem Counted.lives_step (counted : Counted s jobs) (home : ∀ id held, s.slots id = some held → held.child.id = id)
    (ready : Ready s (jobs t)) (effect : Effect s (jobs t) s' job') : Lives s' := by
  have held {c : Child} (holds : c ∈ (jobs t).holds) : 1 ≤ s.strong c := by
    have := counted.holder holds
    omega
  cases effect with
  | Quiet _ strong life next => exact counted.lives.same strong life next
  | Clones id loaded there _ strong life next =>
    exact counted.lives.cloned (counted.in_slot home there).2.1 strong life next
  | Drops child _ strong life next _ holds =>
    exact counted.lives.released (held (by rw [holds]; exact List.mem_cons_self ..)) strong life next
  | Takes id loaded there _ strong life next =>
    rcases life with ⟨same,_⟩ | ⟨waited,_⟩
    · exact counted.lives.same strong same next
    · exact counted.lives.waited (counted.in_slot home there).2.1 strong waited next
  | Buries id loaded there _ _ strong life next =>
    exact counted.lives.released (counted.in_slot home there).2.1 strong life next
  | Spawns request second here there spawned =>
    rw [spawned]
    exact counted.lives.spawned _
  | Places request loaded here there placed =>
    obtain ⟨empty,_⟩ := ready request loaded here
    refine counted.lives.cloned (held (by rw [here]; exact List.mem_singleton_self _)) ?_ ?_ ?_
    · rw [placed,place_strong empty]
    · rw [placed,place_life empty]
    · rw [placed,Shared.place,empty]
      rfl

variable [DecidableEq Tid] {input : Input}

/-- The count goes on being right. -/
theorem Counted.count_step (counted : Counted s jobs) (home : ∀ id held, s.slots id = some held → held.child.id = id)
    (ready : Ready s (jobs t)) (effect : Effect s (jobs t) s' job') (c : Child) :
    s'.strong c = inSlot s'.slots c + Holders.held refs (Function.update jobs t job') c := by
  have moved := Holders.held_update refs jobs t job' c
  have before := counted.count c
  cases effect with
  | Quiet slots strong _ _ _ holds =>
    have same : refs job' c = refs (jobs t) c := by rw [refs,holds,refs]
    rw [strong,slots.inSlot]
    omega
  | Clones id loaded there slots strong _ _ _ none_held holds =>
    have gained : refs job' c = one loaded.child c := refs_of_single holds
    have nothing : refs (jobs t) c = 0 := by rw [refs,none_held,List.count_nil]
    rw [strong,clone_strong,slots.inSlot]
    omega
  | Drops child slots strong _ _ _ holds =>
    have lost : refs (jobs t) c = refs job' c + one child c := refs_of_cons (by rw [holds])
    have here := Holders.le_held refs jobs t c
    rw [strong,release_strong,slots]
    omega
  | Takes id loaded there slots strong _ _ _ _ holds =>
    have gained : refs job' c = refs (jobs t) c + one loaded.child c := refs_of_cons holds
    have left := inSlot_update_none (c := c) there (home id loaded there)
    rw [strong,slots]
    omega
  | Buries id loaded there alone slots strong _ _ _ none_held holds =>
    have same : refs job' c = refs (jobs t) c := by rw [refs,holds,refs,none_held]
    have left := inSlot_update_none (c := c) there (home id loaded there)
    rw [strong,release_strong,slots]
    omega
  | Spawns request second here there spawned =>
    have nothing : refs (jobs t) c = 0 := by
      rw [here]
      rfl
    have gained : refs job' c = one (s.fresh request.entry.id) c := refs_of_single (by rw [there]; rfl)
    rw [spawned]
    have slots : (s.spawn request.entry.id).slots = s.slots := rfl
    by_cases this : c = s.fresh request.entry.id
    · have unused := counted.unborn c (by rw [this]; exact counted.lives.fresh _)
      have strong := (spawn_own s request.entry.id).2
      rw [← this] at gained strong
      rw [one_self] at gained
      rw [strong,slots]
      omega
    · rw [one_ne (Ne.symm this)] at gained
      rw [(spawn_other this).2,slots]
      omega
  | Places request loaded here there placed =>
    obtain ⟨empty,own⟩ := ready request loaded here
    have same : refs job' c = refs (jobs t) c := by
      rw [here,there]
      rfl
    have filled := inSlot_update_some (c := c) empty own
    rw [placed,place_strong empty,clone_strong,place_slots]
    omega

/-- Nothing but what was held already, or is not reaped, is held after a step. -/
theorem Counted.mourners (counted : Counted s jobs) (ran : (jobs t).step config input s t = some (s',job'))
    (gains : ∀ c ∈ job'.holds, c ∈ (jobs t).holds ∨ (s.life c).isReaped = false) {c : Child}
    (was : (s.life c).isReaped = true) (u : Tid) (holds : c ∈ (Function.update jobs t job' u).holds) :
    (Function.update jobs t job' u).mourns = some c := by
  by_cases this : u = t
  · subst this
    rw [Function.update_self] at holds
    rcases gains c holds with before | alive
    · have mourns := (counted.reaped c was).2 u before
      rw [mourning_ends mourns ran] at holds
      cases holds
    · rw [was] at alive
      cases alive
  · rw [Function.update_of_ne this] at holds ⊢
    exact (counted.reaped c was).2 u holds

/-- A reaped child is in no slot after a step, and only a sweep that found it
    exited holds it. -/
theorem Counted.reaped_step (counted : Counted s jobs) (home : ∀ id held, s.slots id = some held → held.child.id = id)
    (ready : Ready s (jobs t)) (ran : (jobs t).step config input s t = some (s',job'))
    (reaped : (s'.life c).isReaped = true) :
    inSlot s'.slots c = 0 ∧ ∀ u, c ∈ (Function.update jobs t job' u).holds → (Function.update jobs t job' u).mourns = some c := by
  have effect := step_effect ran
  have count := counted.count_step home ready effect c
  have before (gains : ∀ c ∈ job'.holds, c ∈ (jobs t).holds ∨ (s.life c).isReaped = false)
      (was : (s.life c).isReaped = true) := And.intro (counted.reaped c was).1 (counted.mourners ran gains was)
  have dropped (zero : s'.strong c = 0) := nothing_left count zero
  cases effect with
  | Quiet slots _ life _ _ holds =>
    rw [life] at reaped
    rw [slots.inSlot]
    exact before (fun c inside => .inl (holds ▸ inside)) reaped
  | Clones id loaded there slots _ life _ _ _ holds =>
    rw [life] at reaped
    rw [slots.inSlot]
    refine before (fun c inside => .inr ?_) reaped
    rw [holds] at inside
    rw [List.mem_singleton.mp inside]
    exact (counted.in_slot home there).2.2
  | Drops child slots strong life _ _ holds =>
    have inside : child ∈ (jobs t).holds := by
      rw [holds]
      exact List.mem_cons_self ..
    have there := counted.holder inside
    rcases released counted.lives (by omega) strong life c with ⟨same,_⟩ | ⟨_,zero,_⟩
    · rw [slots]
      refine before (fun c inside => .inl ?_) (same ▸ reaped)
      rw [holds]
      exact List.mem_cons_of_mem _ inside
    · exact ⟨(dropped zero).1,fun u holds => absurd holds ((dropped zero).2 u)⟩
  | Takes id loaded there slots _ life _ _ _ holds =>
    obtain ⟨slotted,_,alive⟩ := counted.in_slot home there
    have left (c : Child) := inSlot_update_none (c := c) there (home id loaded there)
    have kept (was : (s.life c).isReaped = true) : inSlot s'.slots c = 0 ∧
        ∀ u, c ∈ (Function.update jobs t job' u).holds → (Function.update jobs t job' u).mourns = some c := by
      have none_left := left c
      have gone := (counted.reaped c was).1
      rw [slots]
      refine ⟨by omega,counted.mourners ran (fun c inside => ?_) was⟩
      rcases List.mem_cons.mp (holds.subset inside) with rfl | before
      · exact .inr alive
      · exact .inl before
    rcases life with ⟨same,_⟩ | ⟨waited,alone,mourns⟩
    · exact kept (same ▸ reaped)
    · by_cases this : c = loaded.child
      · subst this
        have here := left loaded.child
        rw [slotted,one_self] at here
        refine ⟨by rw [slots]; omega,fun u inside => ?_⟩
        by_cases this : u = t
        · subst this
          rw [Function.update_self]
          exact mourns
        · rw [Function.update_of_ne this] at inside
          have two := counted.holder inside
          rw [slotted,alone] at two
          omega
      · rw [waited,Function.update_of_ne this] at reaped
        exact kept reaped
  | Buries id loaded there alone slots strong life _ _ _ holds =>
    have left := inSlot_update_none (c := c) there (home id loaded there)
    rcases released counted.lives alone.ge strong life c with ⟨same,_⟩ | ⟨_,zero,_⟩
    · have gone := (counted.reaped c (same ▸ reaped)).1
      rw [slots]
      refine ⟨by omega,counted.mourners ran (fun c inside => ?_) (same ▸ reaped)⟩
      rw [holds] at inside
      cases inside
    · exact ⟨(dropped zero).1,fun u holds => absurd holds ((dropped zero).2 u)⟩
  | Spawns request second here there spawned =>
    rw [spawned] at reaped ⊢
    by_cases this : c = s.fresh request.entry.id
    · rw [this,(spawn_own s _).1] at reaped
      cases reaped
    · rw [(spawn_other this).1] at reaped
      refine before (fun c inside => .inr ?_) reaped
      rw [there] at inside
      rw [List.mem_singleton.mp inside,counted.lives.fresh]
      rfl
  | Places request loaded here there placed =>
    obtain ⟨free,own⟩ := ready request loaded here
    have held : loaded.child ∈ (jobs t).holds := by
      rw [here]
      exact List.mem_singleton_self _
    rw [placed,place_life free] at reaped
    have different : loaded.child ≠ c := fun same => by
      have mourns := (counted.reaped c reaped).2 t (same ▸ held)
      rw [here] at mourns
      cases mourns
    rw [placed,place_slots,inSlot_update_some free own,one_ne different]
    refine before (fun c inside => .inl ?_) reaped
    rw [there] at inside
    rw [here]
    exact inside

/-- A step keeps every count. -/
theorem Counted.step (counted : Counted s jobs) (home : ∀ id held, s.slots id = some held → held.child.id = id)
    (ready : Ready s (jobs t)) (ran : (jobs t).step config input s t = some (s',job')) :
    Counted s' (Function.update jobs t job') := by
  have effect := step_effect ran
  have lives := counted.lives_step home ready effect
  exact ⟨counted.count_step home ready effect,lives.born,lives.unborn,lives.ended,
    fun _ reaped => counted.reaped_step home ready ran reaped⟩

end Counted
end Maestro.Threads
