import Maestro.Simulation
import Mathlib.Logic.Function.Basic

/-!
# A store of models that are lent out

A store holds at most one instance of each model, lends it to whoever reads from
it, and takes it out for a reason. One instance is started at a time. What has
been taken out is ended once nobody reads from it, and never put back.
-/
namespace Maestro.Store

/-- Why an instance is taken out of the store. -/
inductive Reason
  | Exited
  | Room
  | Idle
  | Stop
deriving DecidableEq, Repr

inductive Op (M C : Type)
  -- An instance is started for a model; it comes to nothing, or is put in the store and lent.
  | Starts (model : M) (child : C)
  | Fails (child : C)
  | Loads (model : M) (child : C)
  | Lends (model : M) (child : C)
  | Returns (child : C)
  | Takes (model : M) (child : C) (why : Reason)
  -- What was taken out is ended, and whatever runs may exit.
  | Ends (child : C)
  | Exits (child : C)

/-- What the store holds and has lent, which instance is being started, which
    have been started, and which run no more. -/
@[ext]
structure State (M C : Type) where
  held : M → Option C
  lent : C → ℕ
  starting : Option C
  started : C → Prop
  gone : C → Prop

/-- What the store is run for: which models stay, and the reasons there are to
    take one out. -/
structure Policy (M : Type) where
  resident : M → Prop
  reasons : Reason → Prop

section
variable {M C : Type} [DecidableEq M] [DecidableEq C] (policy : Policy M)

/-- When an instance may be taken out. -/
def Policy.Takes (state : State M C) (model : M) (child : C) : Reason → Prop
  | .Exited => state.gone child ∧ state.lent child = 0
  | .Room | .Idle => ¬ policy.resident model ∧ state.lent child = 0
  | .Stop => True

/-- What each operation needs and what it does. -/
inductive May : Transition.Spec (State M C) (Op M C)
  | Starts {state : State M C} (model : M) (child : C) (nothing : state.starting = none) (empty : state.held model = none)
      (fresh : ¬ state.started child) :
    May state (.Starts model child)
      { state with starting := some child, started := fun c => c = child ∨ state.started c }
  | Fails {state : State M C} (child : C) (here : state.starting = some child) :
    May state (.Fails child) { state with starting := none, gone := fun c => c = child ∨ state.gone c }
  | Loads {state : State M C} (model : M) (child : C) (here : state.starting = some child) (empty : state.held model = none) :
    May state (.Loads model child)
      { state with starting := none, held := Function.update state.held model (some child), lent := Function.update state.lent child 1 }
  | Lends {state : State M C} (model : M) (child : C) (here : state.held model = some child) :
    May state (.Lends model child) { state with lent := Function.update state.lent child (state.lent child + 1) }
  | Returns {state : State M C} (child : C) (count : ℕ) (out : state.lent child = count + 1) :
    May state (.Returns child) { state with lent := Function.update state.lent child count }
  | Takes {state : State M C} (model : M) (child : C) (why : Reason) (here : state.held model = some child)
      (reason : policy.reasons why) (may : policy.Takes state model child why) :
    May state (.Takes model child why) { state with held := Function.update state.held model none }
  | Ends {state : State M C} (child : C) (out : ∀ model, state.held model ≠ some child) (unread : state.lent child = 0)
      (settled : state.starting ≠ some child) (started : state.started child) :
    May state (.Ends child) { state with gone := fun c => c = child ∨ state.gone c }
  | Exits {state : State M C} (child : C) (started : state.started child) (runs : ¬ state.gone child) :
    May state (.Exits child) { state with gone := fun c => c = child ∨ state.gone c }

/-! ## What every store keeps -/

/-- What is being started is neither held nor lent, and an instance is held for
    one model. -/
structure Sane (state : State M C) : Prop where
  apart : ∀ c, state.starting = some c → state.started c ∧ state.lent c = 0 ∧ ∀ m, state.held m ≠ some c
  held : ∀ m c, state.held m = some c → state.started c
  single : ∀ m n c, state.held m = some c → state.held n = some c → m = n
  lent : ∀ c, state.lent c ≠ 0 → state.started c

variable {policy} {model : M} {child : C} {a b : State M C} {op : Op M C} {ops : List (Op M C)}

/-- Nothing is loaded, lent or started. -/
def State.empty : State M C := ⟨fun _ => none,fun _ => 0,none,fun _ => False,fun _ => False⟩

omit [DecidableEq M] [DecidableEq C] in
theorem Sane.empty : Sane (State.empty : State M C) :=
  ⟨fun _ starting => (by cases starting),fun _ _ held => (by cases held),fun _ _ _ held => (by cases held),
    fun _ lent => absurd rfl lent⟩

omit [DecidableEq M] [DecidableEq C] in
theorem Sane.starts (sane : Sane a) {child : C} (fresh : ¬ a.started child) :
    Sane { a with starting := some child, started := fun c => c = child ∨ a.started c } := by
  refine ⟨fun c starting => ?_,fun m c held => .inr (sane.held m c held),sane.single,fun c lent => .inr (sane.lent c lent)⟩
  cases starting
  refine ⟨.inl rfl,?_,fun m held => fresh (sane.held m child held)⟩
  by_contra lent
  exact fresh (sane.lent child lent)

theorem Sane.loads (sane : Sane a) {model : M} {child : C} (here : a.starting = some child) :
    Sane { a with starting := none, held := Function.update a.held model (some child), lent := Function.update a.lent child 1 } := by
  obtain ⟨started,_,unheld⟩ := sane.apart child here
  have held_cases {m : M} {c : C} (held : Function.update a.held model (some child) m = some c) :
      m = model ∧ c = child ∨ a.held m = some c := by
    by_cases this : m = model
    · subst this
      rw [Function.update_self] at held
      exact .inl ⟨rfl,(Option.some.inj held).symm⟩
    · rw [Function.update_of_ne this] at held
      exact .inr held
  refine ⟨fun c starting => (by cases starting),fun m c held => ?_,fun m n c first second => ?_,fun c lent => ?_⟩
  · rcases held_cases held with ⟨_,rfl⟩ | before
    · exact started
    · exact sane.held m c before
  · rcases held_cases first with ⟨first_model,rfl⟩ | before <;> rcases held_cases second with ⟨second_model,same⟩ | other
    · exact first_model.trans second_model.symm
    · exact absurd other (unheld n)
    · exact absurd (same ▸ before) (unheld m)
    · exact sane.single m n c before other
  · by_cases this : c = child
    · exact this ▸ started
    · exact sane.lent c (by simpa [this] using lent)

omit [DecidableEq M] in
/-- A change of what is lent of an instance that is not being started. -/
theorem Sane.lends (sane : Sane a) {child : C} (count : ℕ) (started : a.started child) (settled : a.starting ≠ some child) :
    Sane { a with lent := Function.update a.lent child count } := by
  refine ⟨fun c starting => ?_,sane.held,sane.single,fun c lent => ?_⟩
  · obtain ⟨known,unread,unheld⟩ := sane.apart c starting
    have different : c ≠ child := fun same => settled (same ▸ starting)
    exact ⟨known,by simpa [different] using unread,unheld⟩
  · by_cases this : c = child
    · exact this ▸ started
    · exact sane.lent c (by simpa [this] using lent)

omit [DecidableEq C] in
theorem Sane.takes (sane : Sane a) (model : M) : Sane { a with held := Function.update a.held model none } := by
  have before {m : M} {c : C} (held : Function.update a.held model none m = some c) : a.held m = some c := by
    by_cases this : m = model
    · subst this
      rw [Function.update_self] at held
      cases held
    · rwa [Function.update_of_ne this] at held
  refine ⟨fun c starting => ?_,fun m c held => sane.held m c (before held),
    fun m n c first second => sane.single m n c (before first) (before second),sane.lent⟩
  obtain ⟨known,unread,unheld⟩ := sane.apart c starting
  exact ⟨known,unread,fun m held => unheld m (before held)⟩

/-- Every operation keeps a store sane. -/
theorem Sane.step (sane : Sane a) (may : May policy a op b) : Sane b := by
  cases may with
  | Starts model child nothing empty fresh => exact sane.starts fresh
  | Fails child here => exact ⟨fun c starting => (by cases starting),sane.held,sane.single,sane.lent⟩
  | Loads model child here empty => exact sane.loads here
  | Lends model child here =>
    exact sane.lends _ (sane.held model child here) fun starting => (sane.apart child starting).2.2 model here
  | Returns child count out =>
    have lent : a.lent child ≠ 0 := by omega
    exact sane.lends _ (sane.lent child lent) fun starting => lent (sane.apart child starting).2.1
  | Takes model => exact sane.takes model
  | Ends => exact ⟨sane.apart,sane.held,sane.single,sane.lent⟩
  | Exits => exact ⟨sane.apart,sane.held,sane.single,sane.lent⟩

theorem Sane.runs (sane : Sane a) (runs : (May policy).Runs a ops b) : Sane b :=
  runs.keeps sane fun _ _ _ _ sane may => sane.step may

/-! ## What is kept for as long as it runs -/

/-- There is no reason to take this model out but that its instance has
    exited. -/
structure Policy.Keeps (policy : Policy M) (model : M) : Prop where
  running : ¬ policy.reasons .Stop
  unmoved : policy.resident model ∨ ¬ policy.reasons .Room ∧ ¬ policy.reasons .Idle

omit [DecidableEq M] [DecidableEq C] in
theorem Policy.Keeps.why (keeps : policy.Keeps model) {why : Reason} (reason : policy.reasons why)
    (may : policy.Takes a model child why) : why = .Exited := by
  cases why with
  | Exited => rfl
  | Stop => exact absurd reason keeps.running
  | Room =>
    rcases keeps.unmoved with resident | ⟨never,_⟩
    · exact absurd resident may.1
    · exact absurd reason never
  | Idle =>
    rcases keeps.unmoved with resident | ⟨_,never⟩
    · exact absurd resident may.1
    · exact absurd reason never

/-- One operation leaves what is kept where it is, or finds it gone; and what is
    held goes by exiting alone. -/
theorem kept_step (keeps : policy.Keeps model) (sane : Sane a) (held : a.held model = some child) (may : May policy a op b) :
    (b.held model = some child ∧ (b.gone child → a.gone child ∨ op = .Exits child)) ∨ a.gone child := by
  cases may with
  | Starts => exact .inl ⟨held,.inl⟩
  | Fails other here =>
    refine .inl ⟨held,fun gone => .inl (gone.resolve_left ?_)⟩
    rintro rfl
    exact (sane.apart _ here).2.2 model held
  | Loads other _ here empty =>
    refine .inl ⟨?_,.inl⟩
    have different : model ≠ other := by
      rintro rfl
      rw [held] at empty
      cases empty
    exact (Function.update_of_ne different ..).trans held
  | Lends => exact .inl ⟨held,.inl⟩
  | Returns => exact .inl ⟨held,.inl⟩
  | Takes other taken why here reason may =>
    by_cases this : other = model
    · subst this
      rw [held] at here
      cases here
      have exited := keeps.why reason may
      subst exited
      exact .inr may.1
    · exact .inl ⟨(Function.update_of_ne (Ne.symm this) ..).trans held,.inl⟩
  | Ends other out =>
    refine .inl ⟨held,fun gone => .inl (gone.resolve_left ?_)⟩
    rintro rfl
    exact out model held
  | Exits other =>
    refine .inl ⟨held,fun gone => ?_⟩
    rcases gone with rfl | gone
    · exact .inr rfl
    · exact .inl gone

/-- Through a whole run, what is kept stays where it is until it exits. -/
theorem kept (keeps : policy.Keeps model) (sane : Sane a) (held : a.held model = some child)
    (runs : (May policy).Runs a ops b) : b.held model = some child ∨ a.gone child ∨ .Exits child ∈ ops := by
  suffices (b.held model = some child ∧ (b.gone child → a.gone child ∨ .Exits child ∈ ops)) ∨ a.gone child ∨ .Exits child ∈ ops by
    rcases this with ⟨still,_⟩ | gone
    · exact .inl still
    · exact .inr gone
  induction runs with
  | nil => exact .inl ⟨held,.inl⟩
  | @snoc ops op b c before may ih =>
    rcases ih with ⟨still,ran⟩ | gone | exits
    · rcases kept_step keeps (sane.runs before) still may with ⟨after,runs⟩ | gone
      · refine .inl ⟨after,fun gone => ?_⟩
        rcases runs gone with gone | rfl
        · exact (ran gone).imp_right (List.mem_append_left _)
        · exact .inr (List.mem_append_right _ (List.mem_singleton_self _))
      · exact .inr ((ran gone).imp_right (List.mem_append_left _))
    · exact .inr (.inl gone)
    · exact .inr (.inr (List.mem_append_left _ exits))

/-- What is no longer held was taken out on the way. -/
theorem taken_of_left (runs : (May policy).Runs a ops b) (held : a.held model = some child) (left : b.held model ≠ some child) :
    ∃ why, .Takes model child why ∈ ops := by
  induction runs with
  | nil => exact absurd held left
  | @snoc ops op b c before may ih =>
    by_cases still : b.held model = some child
    swap
    · obtain ⟨why,member⟩ := ih still
      exact ⟨why,List.mem_append_left _ member⟩
    cases may with
    | Loads other _ _ empty =>
      have different : model ≠ other := by
        rintro rfl
        rw [still] at empty
        cases empty
      exact absurd ((Function.update_of_ne different ..).trans still) left
    | Takes other taken why here =>
      by_cases this : model = other
      · subst this
        rw [still] at here
        cases here
        exact ⟨why,List.mem_append_right _ (List.mem_singleton_self _)⟩
      · exact absurd ((Function.update_of_ne this ..).trans still) left
    | _ => exact absurd still left

end
end Maestro.Store
