import Maestro.Admissions

/-!
# The bound on what is loaded

Only the overrun of the last admission can be outstanding: a child is charged
what it was measured to hold once it is placed, and the next admission counts
that.
-/
namespace Maestro.Threads
open Slots (Loaded Slot Table)

/-- What the occupied slots cost, as a decision would count them. -/
def total {Tid : Type} (config : Config) (s : Shared Tid) : ℕ :=
  ((Slots.held config.catalog s.strong s.slots).map Admission.Loaded.costMib).sum

/-- What a slot was admitted at: the estimate for the child most recently
    admitted, and the whole cost for any other. -/
def admittedAt (admitted : Option Child) (entry : Entry) (slot : Slot Child) : ℕ :=
  slot.elim 0 fun held => if admitted = some held.child then entry.memoryEstimateMib else charge entry held

section Sums
variable {Tid : Type} {config : Config} {s : Shared Tid}

theorem total_eq : total config s = ledger config.catalog.entries s.slots [] := by
  rw [total,Slots.held,Slots.snapshot,ledger]
  induction config.catalog.entries with
  | nil => rfl
  | cons entry rest ih =>
    rw [List.filterMap_cons,List.map_cons,List.sum_cons,← ih]
    cases there : s.slots entry.id with
    | none => simp [slotCharge]
    | some held =>
      simp only [Option.map_some,List.map_cons,List.sum_cons,List.not_mem_nil,if_false]
      rfl

theorem admittedAt_le (admitted : Option Child) (entry : Entry) (slot : Slot Child) :
    admittedAt admitted entry slot ≤ slotCharge entry slot := by
  cases slot with
  | none => exact le_rfl
  | some held =>
    simp only [admittedAt,slotCharge,Option.elim_some]
    split_ifs
    · exact charge_ge entry held
    · exact le_rfl

theorem admittedAt_shrinks {a b : Table Child} (shrinks : Shrinks a b) (admitted : Option Child) (entry : Entry)
    (id : String) : admittedAt admitted entry (b id) ≤ admittedAt admitted entry (a id) := by
  cases is : b id with
  | none => exact Nat.zero_le _
  | some held =>
    obtain ⟨old,was,child,measured⟩ := shrinks id held is
    rw [was]
    simp only [admittedAt,Option.elim_some,child,charge_congr entry measured]
    exact le_rfl

/-- One member of a list of different members may weigh more, by no more than a
    given amount. -/
theorem sum_le_but_one {α : Type} [DecidableEq α] {xs : List α} (different : xs.Nodup) {one : α} (member : one ∈ xs)
    {f g : α → ℕ} {more : ℕ} (others : ∀ x ∈ xs, x ≠ one → f x ≤ g x) (here : f one ≤ g one + more) :
    (xs.map f).sum ≤ (xs.map g).sum + more := by
  have apart := List.perm_cons_erase member
  rw [(apart.map f).sum_eq,(apart.map g).sum_eq,List.map_cons,List.map_cons,List.sum_cons,List.sum_cons]
  have rest : ((xs.erase one).map f).sum ≤ ((xs.erase one).map g).sum := by
    refine List.sum_le_sum fun x inside => ?_
    exact others x (List.mem_of_mem_erase inside) (different.mem_erase_iff.mp inside).1
  omega

end Sums

section Bound
variable {Tid : Type} {config : Config}

/-- The slots at what they were admitted at. -/
def admittedTotal (config : Config) (s : Shared Tid) : ℕ :=
  (config.catalog.entries.map fun entry => admittedAt s.admitted entry (s.slots entry.id)).sum

theorem entries_nodup (config : Config) : config.catalog.entries.Nodup := .of_map Entry.id config.catalog.distinct

/-- An admission adds its estimate to a ledger with room for it. -/
theorem admittedTotal_place {s : Shared Tid} {entry : Entry} (known : entry ∈ config.catalog.entries)
    {loaded : Loaded Child} {limit : ℕ}
    (room : ledger config.catalog.entries s.slots [] + entry.memoryEstimateMib ≤ limit) :
    admittedTotal config (s.place entry.id loaded) ≤ limit := by
  refine le_trans ?_ room
  refine sum_le_but_one (entries_nodup config) known (fun other member apart => ?_) ?_
  · have elsewhere : other.id ≠ entry.id := fun same => apart (config.catalog.eq_of_id member known same)
    rw [place_slots,Function.update_of_ne elsewhere]
    exact (admittedAt_le _ other _).trans (by simp)
  · rw [place_slots,Function.update_self]
    have admitted : (s.place entry.id loaded).admitted = some loaded.child := rfl
    simp [admittedAt,admitted]

/-- A child in a slot tells which slot it is. -/
theorem slot_of_child {state : State Tid} (alone : OneAtATime config state) {a b : Entry} {x y : Loaded Child}
    (a_in : a ∈ config.catalog.entries) (b_in : b ∈ config.catalog.entries) (at_a : state.shared.slots a.id = some x)
    (at_b : state.shared.slots b.id = some y) (same : x.child = y.child) : a = b := by
  refine config.catalog.eq_of_id a_in b_in ?_
  rw [← (alone.home a.id x at_a).1,← (alone.home b.id y at_b).1,same]

variable [DecidableEq Tid] {allowed : State Tid → Event Tid → Prop}

theorem admittedTotal_step {before after : State Tid} {event : Event Tid} (alone : OneAtATime config before)
    (steps : before.step config event = some after) {limit : ℕ} (is : config.budget.limitMib = some limit)
    (within : admittedTotal config before.shared ≤ limit) : admittedTotal config after.shared ≤ limit := by
  rcases step_cases steps with ⟨clock,shared,_⟩ | ⟨child,status,_,_,shared⟩ | ⟨t,input,job,_,ran,_⟩
  · rw [shared]
    exact within
  · rw [shared]
    exact within
  · have shrunk (shrinks : Shrinks before.shared.slots after.shared.slots)
        (same : after.shared.admitted = before.shared.admitted) : admittedTotal config after.shared ≤ limit := by
      refine le_trans (List.sum_le_sum fun entry _ => ?_) within
      rw [same]
      exact admittedAt_shrinks shrinks _ entry entry.id
    cases step_effect ran with
    | Quiet slots _ _ _ same => exact shrunk slots.shrinks same
    | Clones _ _ _ slots _ _ _ same => exact shrunk slots.shrinks same
    | Drops _ slots _ _ _ same => exact shrunk (by rw [slots]; exact Shrinks.refl _) same
    | Takes id _ _ slots _ _ _ same => exact shrunk (by rw [slots]; exact Shrinks.update_none _ _) same
    | Buries id _ _ _ slots _ _ _ same => exact shrunk (by rw [slots]; exact Shrinks.update_none _ _) same
    | Spawns _ _ _ _ spawned => exact shrunk (by rw [spawned]; exact Shrinks.refl _) (by rw [spawned]; rfl)
    | Places request loaded here _ placed =>
      rw [placed]
      obtain ⟨_,room,_⟩ := alone.sound t request _ here
      exact admittedTotal_place (alone.known t request (by rw [here]; rfl)) (room limit is)

theorem admittedTotal_le {state : State Tid} (reached : Transition.Reaches (router config Tid) allowed state) {limit : ℕ}
    (is : config.budget.limitMib = some limit) : admittedTotal config state.shared ≤ limit := by
  refine Transition.Reaches.invariant ?_ (fun s e s' before within _ steps =>
    admittedTotal_step (oneAtATime before) steps is within) reached
  have nothing : admittedTotal config (State.start Tid).shared = 0 :=
    List.sum_eq_zero fun x member => by
      obtain ⟨entry,_,rfl⟩ := List.mem_map.mp member
      rfl
  exact nothing.le.trans (Nat.zero_le _)

/-- Whatever the order of requests, admissions, sweeps, deaths and stops, the
    occupied slots cost at most the budget and, while the child most recently
    admitted is still in its slot, its overrun. -/
theorem ledger_bound {state : State Tid} (reached : Transition.Reaches (router config Tid) allowed state) {limit : ℕ}
    (is : config.budget.limitMib = some limit) :
    (∀ entry ∈ config.catalog.entries, ∀ held, state.shared.slots entry.id = some held →
      state.shared.admitted = some held.child →
        total config state.shared ≤ limit + (charge entry held - entry.memoryEstimateMib)) ∧
    ((∀ entry ∈ config.catalog.entries, ∀ held, state.shared.slots entry.id = some held →
      state.shared.admitted ≠ some held.child) → total config state.shared ≤ limit) ∧
    ((∀ entry ∈ config.catalog.entries, ∀ held, state.shared.slots entry.id = some held →
      charge entry held ≤ entry.memoryEstimateMib) → total config state.shared ≤ limit) := by
  have within := admittedTotal_le reached is
  have alone := oneAtATime reached
  have summed : total config state.shared =
      (config.catalog.entries.map fun entry => slotCharge entry (state.shared.slots entry.id)).sum := by
    rw [total_eq,ledger]
    simp
  rw [summed]
  refine ⟨fun entry known held there admitted => ?_,fun others => ?_,fun exact => ?_⟩
  · refine le_trans (sum_le_but_one (entries_nodup config) known (fun other member apart => ?_) ?_)
      (Nat.add_le_add_right within _)
    · cases is : state.shared.slots other.id with
      | none => exact le_rfl
      | some kept =>
        have elsewhere : state.shared.admitted ≠ some kept.child := by
          rw [admitted]
          intro same
          exact apart (slot_of_child alone member known is there (Option.some.inj same).symm)
        simp [admittedAt,slotCharge,elsewhere]
    · rw [there]
      have least := charge_ge entry held
      simp only [admittedAt,slotCharge,Option.elim_some,admitted,if_true]
      omega
  · refine le_trans (List.sum_le_sum fun entry known => ?_) within
    cases there : state.shared.slots entry.id with
    | none => exact le_rfl
    | some held => simp [admittedAt,slotCharge,others entry known held there]
  · refine le_trans (List.sum_le_sum fun entry known => ?_) within
    cases there : state.shared.slots entry.id with
    | none => exact le_rfl
    | some held =>
      have least := exact entry known held there
      simp only [admittedAt,slotCharge,Option.elim_some]
      split_ifs
      · exact least
      · exact le_rfl

end Bound

/-! ## One model that costs more than its estimate -/

/-- An on-demand entry of 8 MiB. -/
def model : Entry := ⟨"m","m.gguf",none,none,4096,.OnDemand,8,none,none,30,none,[]⟩

/-- The one entry in a budget of 10 MiB, with an idle window. -/
def oneModel : Config where
  catalog := ⟨[model],by decide⟩
  budget := ⟨some 10⟩
  wait := 0
  server := ⟨"/bin/llama-server"⟩
  root := "/models"
  idleWindow := .new 1

/-- The steps of a request that finds nothing loaded, up to the start of a
    process. -/
def spawning {Tid : Type} (t : Tid) : List (Event Tid) :=
  [.Ask ⟨model,true⟩,.Go,.Go,.Go,.Go,.Go,.Resolve none,.Device none,.Go,.Go,.Go,.Clock false,.Spawn none].map (.Act t)

/-- From there until the request serves from the child. -/
def serving {Tid : Type} (measured : ℕ) (t : Tid) : List (Event Tid) :=
  [.Poll (some 200) false,.Measure ⟨some measured,none⟩,.Go,.Go,.Go].map (.Act t)

/-- Measured at 12 MiB, the model is over the budget by two, its overrun being
    four. -/
theorem overrun_outstanding : ∃ state, Transition.Reaches (router oneModel Unit) (fun _ _ => True) state ∧
    total oneModel state.shared = 12 ∧ total oneModel state.shared ≤ 10 + (12 - 8) := by
  have passes : ((router oneModel Unit).run (fun _ _ => true) (State.start Unit) (spawning () ++ serving 12 ())).any
      (fun state => total oneModel state.shared = 12 ∧ ∃ held ∈ state.shared.slots "m", charge model held = 12 ∧
        state.shared.admitted = some held.child) = true := by
    decide +kernel
  obtain ⟨state,reached,checked⟩ := Transition.exists_of_run (fun _ _ _ => trivial) passes
  obtain ⟨costs,held,there,charged,admitted⟩ := of_decide_eq_true checked
  have bound := (ledger_bound reached rfl).1 model (List.mem_singleton_self _) held there admitted
  rw [charged] at bound
  exact ⟨state,reached,costs,bound⟩

end Maestro.Threads
