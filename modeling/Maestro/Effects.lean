import Maestro.Branches

/-!
# What one step does to the references

Every step of every thread does one of seven things to the slots and to the
references: nothing, one reference more on what a slot holds, one dropped, a
slot taken, a dead child dropped in its slot, a process started, a child placed.
-/
namespace Maestro.Threads
open Slots (Loaded Slot Table Liveness)

/-! ## The references a thread holds -/

def Phase.holds : Phase → List Child
  | .Ending child _ _ | .Loading child _ _ | .Abandoning child _ _ | .Measuring child | .Placed child => [child]
  | .Placing loaded => [loaded.child]
  | _ => []

/-- The references a thread holds. -/
def Job.holds : Job → List Child
  | .Admitting _ phase => phase.holds
  | .Serving _ child | .Touching _ child | .Dropping _ child => [child]
  | .Swept _ child _ _ _ => [child]
  | .Clearing _ _ taken => taken
  | .Stopping _ rest => rest
  | _ => []

/-- The reference a thread was handed as the answer to its request, until it
    drops it. -/
def Job.handed : Job → Option Child
  | .Admitting _ (.Placed child) => some child
  | .Serving _ child | .Touching _ child | .Dropping _ child => some child
  | _ => none

/-- The same, where the request relays from the child. -/
def Job.relayed : Job → Option Child
  | .Admitting request (.Placed child) => if request.relays then some child else none
  | .Serving request child | .Touching request child | .Dropping request child =>
    if request.relays then some child else none
  | _ => none

/-- The child that a sweep has found exited and not yet dropped. -/
def Job.mourns : Job → Option Child
  | .Swept .Exited child _ _ _ => some child
  | _ => none

theorem Job.handed_holds {job : Job} {child : Child} (handed : job.handed = some child) : job.holds = [child] := by
  cases job with
  | Admitting request phase =>
    cases phase <;> simp [Job.handed] at handed
    subst handed
    rfl
  | Serving request other =>
    cases handed
    rfl
  | Touching request other =>
    cases handed
    rfl
  | Dropping request other =>
    cases handed
    rfl
  | _ => simp [Job.handed] at handed

/-! ## The effects -/

/-- Every slot holds the same child, measured the same. -/
def Stamped (before after : Table Child) : Prop :=
  ∀ id, (after id).map (fun held => (held.child, held.measured)) = (before id).map fun held => (held.child, held.measured)

section
variable {Tid : Type}

inductive Effect (s : Shared Tid) (job : Job) (s' : Shared Tid) (job' : Job) : Prop
  | Quiet (slots : Stamped s.slots s'.slots) (strong : s'.strong = s.strong) (life : s'.life = s.life)
      (next : s'.next = s.next) (admitted : s'.admitted = s.admitted) (holds : job'.holds = job.holds)
      (handed : job'.handed = job.handed) (mourns : job'.mourns = none)
  | Clones (id : String) (loaded : Loaded Child) (there : s.slots id = some loaded) (slots : Stamped s.slots s'.slots)
      (strong : s'.strong = (s.clone loaded.child).strong) (life : s'.life = s.life) (next : s'.next = s.next)
      (admitted : s'.admitted = s.admitted) (none_held : job.holds = []) (holds : job'.holds = [loaded.child])
      (handed : job'.handed = some loaded.child)
  | Drops (child : Child) (slots : s'.slots = s.slots) (strong : s'.strong = (s.release child).strong)
      (life : s'.life = (s.release child).life) (next : s'.next = s.next) (admitted : s'.admitted = s.admitted)
      (holds : job.holds = child :: job'.holds) (handed : job'.handed = none) (mourns : job'.mourns = none)
  | Takes (id : String) (loaded : Loaded Child) (there : s.slots id = some loaded)
      (slots : s'.slots = Function.update s.slots id none) (strong : s'.strong = s.strong)
      (life : s'.life = s.life ∧ job'.mourns = none ∨
        s'.life = Function.update s.life loaded.child (s.life loaded.child).stopped ∧ s.strong loaded.child = 1 ∧
          job'.mourns = some loaded.child)
      (next : s'.next = s.next) (admitted : s'.admitted = s.admitted)
      (why : s.strong loaded.child ≤ 1 ∨ ∃ called rest taken, job = .Clearing called rest taken)
      (holds : job'.holds.Perm (loaded.child :: job.holds)) (handed : job'.handed = none)
  | Buries (id : String) (loaded : Loaded Child) (there : s.slots id = some loaded)
      (alone : s.strong loaded.child = 1) (slots : s'.slots = Function.update s.slots id none)
      (strong : s'.strong = (s.release loaded.child).strong) (life : s'.life = (s.release loaded.child).life)
      (next : s'.next = s.next) (admitted : s'.admitted = s.admitted) (none_held : job.holds = [])
      (holds : job'.holds = []) (handed : job'.handed = none)
  | Spawns (request : Request) (second : Bool) (here : job = .Admitting request (.Starting second))
      (there : job' = .Admitting request (.Loading (s.fresh request.entry.id) false second))
      (spawned : s' = s.spawn request.entry.id)
  | Places (request : Request) (loaded : Loaded Child) (here : job = .Admitting request (.Placing loaded))
      (there : job' = .Admitting request (.Placed loaded.child)) (placed : s' = s.place request.entry.id loaded)

variable {config : Config} {input : Input} {s s' : Shared Tid} {job job' : Job} {t : Tid}

theorem Stamped.refl (slots : Table Child) : Stamped slots slots := fun _ => rfl

theorem Stamped.touched (slots : Table Child) (id : String) (now : ℕ) :
    Stamped slots (Function.update slots id (Slots.touched now (slots id))) := by
  intro other
  by_cases this : other = id
  · subst this
    rw [Function.update_self]
    cases slots other <;> rfl
  · rw [Function.update_of_ne this]

/-- Nothing is shared differently. -/
theorem Effect.same (slots : s'.slots = s.slots) (strong : s'.strong = s.strong) (life : s'.life = s.life)
    (next : s'.next = s.next) (admitted : s'.admitted = s.admitted) (holds : job'.holds = job.holds)
    (handed : job'.handed = job.handed) (mourns : job'.mourns = none) : Effect s job s' job' :=
  .Quiet (by rw [slots]; exact Stamped.refl _) strong life next admitted holds handed mourns

theorem put_same {self : Shared Tid} {id : String} {slot : Slot Child} (is : self.slots id = slot) : self.put id slot = self := by
  rw [Shared.put,Function.update_eq_self_iff.mpr is.symm]

/-- What looking for a live child in a slot does: there is none, or it is dead
    and dropped, or it is used. -/
theorem running_cases (self : Shared Tid) (id : String) :
    (self.slots id = none ∧ self.running id = (none,self)) ∨
    (∃ loaded, self.slots id = some loaded ∧ self.strong loaded.child = 1 ∧
      self.running id = (none,(self.put id none).release loaded.child)) ∨
    ∃ loaded, self.slots id = some loaded ∧
      self.running id = (some loaded.child,(self.put id (Slots.touched self.clock (self.slots id))).clone loaded.child) := by
  rcases Slots.liveChild_cases self.strong self.check self.clock (self.slots id) with
    ⟨empty,is⟩ | ⟨held,status,there,alone,_,is⟩ | ⟨held,there,_,is⟩
  · refine .inl ⟨empty,?_⟩
    rw [Shared.running,is]
    change (none,(self.put id none).discard (self.slots id)) = _
    rw [empty,put_same empty]
    rfl
  · refine .inr (.inl ⟨held,there,alone,?_⟩)
    rw [Shared.running,is]
    change (none,(self.put id none).discard (self.slots id)) = _
    rw [there]
    rfl
  · refine .inr (.inr ⟨held,there,?_⟩)
    rw [Shared.running,is,there]
    rfl

/-- A step that looks for a live child holds nothing and is handed what it
    finds. -/
theorem running_effect {id : String} (none_held : job.holds = []) (none_handed : job.handed = none) {found : Option Child}
    (is : s.running id = (found,s')) (holds : job'.holds = found.toList) (handed : job'.handed = found)
    (mourns : job'.mourns = none) :
    Effect s job s' job' := by
  rcases running_cases s id with ⟨empty,ran⟩ | ⟨loaded,there,alone,ran⟩ | ⟨loaded,there,ran⟩ <;> rw [ran] at is <;> cases is
  · exact .same rfl rfl rfl rfl rfl (holds.trans none_held.symm) (handed.trans none_handed.symm) mourns
  · exact .Buries id loaded there alone rfl rfl rfl rfl rfl none_held holds handed
  · exact .Clones id loaded there (Stamped.touched _ _ _) rfl rfl rfl rfl none_held holds handed

theorem take_effect {id : String} {loaded : Loaded Child} (there : s.slots id = some loaded) (idle : s.strong loaded.child ≤ 1)
    (none_held : job.holds = []) (holds : job'.holds = [loaded.child]) (handed : job'.handed = none) (mourns : job'.mourns = none) :
    Effect s job (s.put id none) job' := by
  refine .Takes id loaded there rfl rfl (.inl ⟨rfl,mourns⟩) rfl rfl (.inl idle) ?_ handed
  rw [holds,none_held]

/-! ## Every step has one of them -/

theorem phase_effect {request : Request} {phase : Phase} (steps : phase.step config input s request = some (s',job')) :
    Effect s (.Admitting request phase) s' job' := by
  cases phase_branch steps with
  | finds _ child shared ran => exact running_effect rfl rfl ran rfl rfl rfl
  | misses _ shared ran => exact running_effect rfl rfl ran rfl rfl rfl
  | takes _ named rest id held there idle => exact take_effect there idle rfl rfl rfl rfl
  | ends _ child named rest => exact .Drops child rfl rfl rfl rfl rfl rfl rfl rfl
  | spawns second => exact .Spawns request second rfl rfl rfl
  | retries _ child failure => exact .Drops child rfl rfl rfl rfl rfl rfl rfl rfl
  | abandons _ child failure => exact .Drops child rfl rfl rfl rfl rfl rfl rfl rfl
  | places _ loaded => exact .Places request loaded rfl rfl rfl
  | _ => exact .same rfl rfl rfl rfl rfl rfl rfl rfl

/-- What the taking of a slot by a stop does: the slot may have been empty. -/
theorem clear_effect (called : ℕ) (taken : List Child) (id : String) (rest : List String) :
    Effect s (.Clearing called (id :: rest) taken)
      { s.put id none with cleared := Function.update s.cleared id (max (s.cleared id) called) }
      (.Clearing called rest (taken ++ ((s.slots id).map Loaded.child).toList)) := by
  cases there : s.slots id with
  | none =>
    refine .same ?_ rfl rfl rfl rfl ?_ rfl rfl
    · exact Function.update_eq_self_iff.mpr there.symm
    · exact List.append_nil taken
  | some held =>
    refine .Takes id held there rfl rfl (.inl ⟨rfl,rfl⟩) rfl rfl (.inr ⟨_,_,_,rfl⟩) ?_ rfl
    exact List.perm_append_comm

/-- What a step of a thread does to the slots and the references. -/
theorem step_effect (steps : job.step config input s t = some (s',job')) : Effect s job s' job' := by
  cases step_branch steps with
  | finds _ request child shared ran => exact running_effect rfl rfl ran rfl rfl rfl
  | misses _ request shared ran => exact running_effect rfl rfl ran rfl rfl rfl
  | admits _ request phase => exact phase_effect steps
  | touches _ request child => exact .Quiet (Stamped.touched _ _ _) rfl rfl rfl rfl rfl rfl rfl
  | drops _ request child => exact .Drops child rfl rfl rfl rfl rfl rfl rfl rfl
  | buries _ id rest named held status there alone gone =>
    exact .Takes id held there rfl rfl (.inr ⟨rfl,alone,rfl⟩) rfl rfl (.inl alone.le) (.refl _) rfl
  | unloads _ now id rest named held duration there idle => exact take_effect there idle rfl rfl rfl rfl
  | names _ kind child said rest named => exact .Drops child rfl rfl rfl rfl rfl rfl rfl rfl
  | clears _ called id rest taken => exact clear_effect called taken id rest
  | ends _ called child rest => exact .Drops child rfl rfl rfl rfl rfl rfl rfl rfl
  | _ => exact .same rfl rfl rfl rfl rfl rfl rfl rfl

end
end Maestro.Threads
