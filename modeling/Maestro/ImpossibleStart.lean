import Maestro.Slots

/-!
# Nothing is unloaded for a start that could not have happened

A start that the machine already shows to be impossible is an error that moves
no child, where the model file is what is missing. A runtime that is missing is
found only after room was made, so there the slots are as they were exactly
where no pass of the wait unloaded anything.
-/
namespace Maestro.Slots
open Admission (Budget Decision Wanted)

/-! ## Slots that hold the same children, or some of them -/

section Tables
variable {C : Type}

/-- Every slot holds the child it held before. -/
def Same (before after : Table C) : Prop := ∀ id, (after id).map Loaded.child = (before id).map Loaded.child

/-- Every slot holds the child it held before, or is empty. -/
def Fewer (before after : Table C) : Prop :=
  ∀ id, after id = none ∨ (after id).map Loaded.child = (before id).map Loaded.child

theorem Same.trans {a b c : Table C} (first : Same a b) (second : Same b c) : Same a c :=
  fun id => (second id).trans (first id)

theorem Same.iff_left {a b c : Table C} (first : Same a b) : Same a c ↔ Same b c :=
  ⟨fun all id => (all id).trans (first id).symm,first.trans⟩

theorem Same.fewer {a b : Table C} (same : Same a b) : Fewer a b := fun id => .inr (same id)

theorem Same.none_iff {a b : Table C} (same : Same a b) (id : String) : b id = none ↔ a id = none := by
  rw [← Option.map_eq_none_iff (f := Loaded.child),same id,Option.map_eq_none_iff]

theorem Fewer.trans {a b c : Table C} (first : Fewer a b) (second : Fewer b c) : Fewer a c := by
  intro id
  rcases second id with gone | kept
  · exact .inl gone
  · rcases first id with gone | held
    · rw [gone,Option.map_none,Option.map_eq_none_iff] at kept
      exact .inl kept
    · exact .inr (kept.trans held)

theorem Fewer.empty {a b : Table C} (fewer : Fewer a b) {id : String} (empty : a id = none) : b id = none := by
  rcases fewer id with gone | kept
  · exact gone
  · rwa [empty,Option.map_none,Option.map_eq_none_iff] at kept

theorem Same.not_of_emptied {a b : Table C} {id : String} {held : Loaded C} (was : a id = some held) (gone : b id = none) :
    ¬ Same a b := by
  intro same
  have := same id
  rw [was,gone] at this
  cases this

theorem Fewer.update_none (slots : Table C) (id : String) : Fewer slots (Function.update slots id none) := by
  intro other
  by_cases this : other = id
  · subst this
    exact .inl (Function.update_self ..)
  · exact .inr (by rw [Function.update_of_ne this])

theorem Moment.same (moment : Moment C) (slots : Table C) : Same slots (moment.others slots) := moment.keeps slots

theorem meanwhile_same (pass : Pass C) (slots : Table C) : Same slots (meanwhile pass slots) :=
  (pass.weighing.same slots).trans (pass.acting.same _)

end Tables

/-! ## What each part of a call leaves in the slots -/

section Parts
variable {C : Type} {router : Router} {machine : Launch.Machine} {entry : Entry} {call : Call C} {slots : Table C}

/-- An empty slot yields no child and stays empty. -/
theorem running_empty (moment : Moment C) {id : String} (empty : slots id = none) :
    (running moment id slots).1 = none ∧ Same slots (running moment id slots).2 := by
  have still := (moment.same slots).none_iff id |>.mpr empty
  rw [running,still]
  refine ⟨rfl,?_⟩
  change Same slots (Function.update (moment.others slots) id none)
  rw [Function.update_eq_self_iff.mpr still.symm]
  exact moment.same slots

/-- Where no child is handed out the slot is empty afterwards. -/
theorem running_none (moment : Moment C) {id : String} (nothing : (running moment id slots).1 = none) :
    (running moment id slots).2 id = none ∧ Fewer slots (running moment id slots).2 := by
  have others := (moment.same slots).fewer
  rcases liveChild_cases moment.strong moment.check moment.now (moment.others slots id) with ⟨_,is⟩ | ⟨_,_,_,_,_,is⟩ | ⟨held,_,_,is⟩
  · rw [running,is]
    exact ⟨Function.update_self ..,others.trans (.update_none _ id)⟩
  · rw [running,is]
    exact ⟨Function.update_self ..,others.trans (.update_none _ id)⟩
  · rw [running,is] at nothing
    cases nothing

theorem unload_fewer (strong : C → ℕ) (ids : List String) (slots : Table C) : Fewer slots (unload strong ids slots).2 := by
  induction ids generalizing slots with
  | nil => exact fun id => .inr rfl
  | cons id ids ih =>
    rcases takeIfIdle_cases strong (fun _ => true) (slots id) with
      ⟨_,is⟩ | ⟨_,_,_,is⟩ | ⟨held,_,_,_,is⟩
    · rw [unload,is]
      exact ih slots
    · rw [unload,is]
      exact fun id => .inr rfl
    · rw [unload,is]
      exact (Fewer.update_none slots id).trans (ih _)

theorem unload_idle {strong : C → ℕ} {id : String} (ids : List String) {held : Loaded C} (is : slots id = some held)
    (idle : busy strong held.child = false) : (unload strong (id :: ids) slots).2 id = none := by
  have taken : takeIfIdle strong (fun _ => true) (slots id) = (.Taken held,none) := by simp [takeIfIdle,is,idle]
  rw [unload,taken]
  exact (unload_fewer strong ids _).empty (Function.update_self ..)

theorem unload_busy {strong : C → ℕ} {id : String} (ids : List String) {held : Loaded C} (is : slots id = some held)
    (read : busy strong held.child = true) : unload strong (id :: ids) slots = (some id,slots) := by
  have stays : takeIfIdle strong (fun _ => true) (slots id) = (.Busy,some held) := by simp [takeIfIdle,is,read]
  rw [unload,stays]

theorem act_fewer (pass : Pass C) (decision : Decision) (slots : Table C) : Fewer slots (act pass decision slots).2 := by
  have others := (meanwhile_same pass slots).fewer
  cases decision with
  | Unload ids => exact others.trans (unload_fewer _ ids _)
  | Fits => exact others
  | Blocked message => exact others
  | Refuse message => exact others

/-- What a decision names is in its slot, at the decision and until the pass
    acts on it. -/
theorem named_held {pass : Pass C} {ids : List String} (decided : router.weigh entry pass slots = some (.Unload ids))
    {id : String} (named : id ∈ ids) : ∃ held, meanwhile pass slots id = some held := by
  obtain ⟨subject,member,rfl⟩ := Admission.unload_names decided named
  obtain ⟨other,_,found⟩ := List.mem_filterMap.mp member
  obtain ⟨held,is,rfl⟩ := Option.map_eq_some_iff.mp found
  refine Option.ne_none_iff_exists'.mp fun empty => ?_
  rw [meanwhile,(pass.acting.same _).none_iff] at empty
  change pass.weighing.others slots other.id = none at empty
  rw [empty] at is
  cases is

end Parts

/-! ## The passes of the wait -/

section Passes
variable {C : Type} (router : Router) (entry : Entry) (call : Call C)

/-- The pass finds its room held and takes nothing: the decision is blocked, or
    the first entry it names has gained a reader. -/
def HeldAt (pass : Pass C) (slots : Table C) : Prop :=
  (∃ message, router.weigh entry pass slots = some (.Blocked message)) ∨
  ∃ id ids held, router.weigh entry pass slots = some (.Unload (id :: ids)) ∧ meanwhile pass slots id = some held ∧
    busy pass.acting.strong held.child = true

/-- The pass panics, or unloads: the first entry its decision names is idle. -/
def GoesAt (pass : Pass C) (slots : Table C) : Prop :=
  router.weigh entry pass slots = none ∨
  ∃ id ids held, router.weigh entry pass slots = some (.Unload (id :: ids)) ∧ meanwhile pass slots id = some held ∧
    busy pass.acting.strong held.child = false

/-- The slots as the i-th pass from `k` on meets them when none before it has
    taken anything. -/
def metBy (call : Call C) : ℕ → ℕ → Table C → Table C
  | _, 0, slots => slots
  | k, i + 1, slots => metBy call (k + 1) i (meanwhile (call.pass k) slots)

variable {router entry call} {slots : Table C}

theorem act_held {pass : Pass C} (is : HeldAt router entry pass slots) : ∃ decision blocker,
    router.weigh entry pass slots = some decision ∧ act pass decision slots = (blocker,meanwhile pass slots) ∧
    ∀ expired, ∃ held, MakeRoom.turn entry.id decision blocker router.wait expired =
      MakeRoom.heldBy entry.id held router.wait expired := by
  rcases is with ⟨message,decided⟩ | ⟨id,ids,held,decided,there,read⟩
  · exact ⟨_,_,decided,rfl,fun expired => ⟨_,rfl⟩⟩
  · exact ⟨_,_,decided,unload_busy ids there read,fun expired => ⟨_,rfl⟩⟩

/-- A pass that is held sleeps, and the next one meets the same children. -/
theorem makeRoom_sleeps {k : ℕ} (is : HeldAt router entry (call.pass k) slots) (passes : ℕ) :
    router.makeRoom entry call (passes + 1) k slots =
      router.makeRoom entry call passes (k + 1) (meanwhile (call.pass k) slots) := by
  obtain ⟨decision,blocker,decided,acts,turns⟩ := act_held is
  obtain ⟨held,turn⟩ := turns (decide (passes + 1 = 0))
  rw [Router.makeRoom,decided]
  simp only [acts,turn]
  rfl

theorem makeRoom_expires {k : ℕ} (is : HeldAt router entry (call.pass k) slots) : ∃ failure,
    router.makeRoom entry call 0 k slots = (some (.error failure),meanwhile (call.pass k) slots) := by
  obtain ⟨decision,blocker,decided,acts,turns⟩ := act_held is
  obtain ⟨held,turn⟩ := turns true
  refine ⟨MakeRoom.refused entry.id held router.wait,?_⟩
  rw [Router.makeRoom,decided]
  simp only [acts,decide_true,turn]
  rfl

/-- A pass that is neither held nor takes anything is the last one. -/
theorem makeRoom_ends {k : ℕ} (free : ¬ HeldAt router entry (call.pass k) slots)
    (keeps : ¬ GoesAt router entry (call.pass k) slots) (passes : ℕ) : ∃ answer,
    router.makeRoom entry call passes k slots = (some answer,meanwhile (call.pass k) slots) := by
  cases decided : router.weigh entry (call.pass k) slots with
  | none => exact absurd (.inl decided) keeps
  | some decision =>
    cases decision with
    | Fits => exact ⟨_,by rw [Router.makeRoom,decided]; rfl⟩
    | Refuse message => exact ⟨_,by rw [Router.makeRoom,decided]; rfl⟩
    | Blocked message => exact absurd (.inl ⟨message,decided⟩) free
    | Unload ids =>
      cases ids with
      | nil => exact ⟨_,by rw [Router.makeRoom,decided]; rfl⟩
      | cons id ids =>
        obtain ⟨held,there⟩ := named_held decided (List.mem_cons_self ..)
        cases read : busy (call.pass k).acting.strong held.child with
        | true => exact absurd (.inr ⟨id,ids,held,decided,there,read⟩) free
        | false => exact absurd (.inr ⟨id,ids,held,decided,there,read⟩) keeps

/-- A pass that has decided ends the loop with what its decision did, or
    sleeps. -/
theorem makeRoom_pass {k : ℕ} {decision : Decision} (decided : router.weigh entry (call.pass k) slots = some decision)
    (passes : ℕ) : (∃ answer, router.makeRoom entry call passes k slots = (some answer,(act (call.pass k) decision slots).2)) ∨
    ∃ later < passes, router.makeRoom entry call passes k slots =
      router.makeRoom entry call later (k + 1) (act (call.pass k) decision slots).2 := by
  rw [Router.makeRoom,decided]
  rcases done : act (call.pass k) decision slots with ⟨blocker,left⟩
  simp only [done]
  cases turned : MakeRoom.turn entry.id decision blocker router.wait (decide (passes = 0)) with
  | Room => exact .inl ⟨_,rfl⟩
  | Fails failure => exact .inl ⟨_,rfl⟩
  | Sleeps =>
    cases passes with
    | zero => exact .inl ⟨_,rfl⟩
    | succ passes => exact .inr ⟨passes,Nat.lt_succ_self _,rfl⟩

theorem makeRoom_fewer (passes k : ℕ) (slots : Table C) : Fewer slots (router.makeRoom entry call passes k slots).2 := by
  induction passes using Nat.strong_induction_on generalizing k slots with
  | _ passes ih =>
    cases decided : router.weigh entry (call.pass k) slots with
    | none => exact fun id => .inr (by rw [Router.makeRoom,decided])
    | some decision =>
      have acts := act_fewer (call.pass k) decision slots
      rcases makeRoom_pass decided passes with ⟨answer,ends⟩ | ⟨later,less,sleeps⟩
      · rw [ends]
        exact acts
      · rw [sleeps]
        exact acts.trans (ih later less _ _)

/-- A pass that takes leaves a slot empty, and it stays so. -/
theorem makeRoom_goes {k : ℕ} (is : GoesAt router entry (call.pass k) slots) (passes : ℕ) :
    ¬ ((router.makeRoom entry call passes k slots).1 ≠ none ∧ Same slots (router.makeRoom entry call passes k slots).2) := by
  rintro ⟨answers,same⟩
  rcases is with panics | ⟨id,ids,held,decided,there,idle⟩
  · exact answers (by rw [Router.makeRoom,panics])
  · have gone : (act (call.pass k) (.Unload (id :: ids)) slots).2 id = none := unload_idle ids there idle
    have was : slots id ≠ none := by
      rw [Ne,← (meanwhile_same (call.pass k) slots).none_iff id,there]
      exact Option.some_ne_none held
    obtain ⟨before,is⟩ := Option.ne_none_iff_exists'.mp was
    refine Same.not_of_emptied is ?_ same
    rcases makeRoom_pass decided passes with ⟨answer,ends⟩ | ⟨later,_,sleeps⟩
    · rw [ends]
      exact gone
    · rw [sleeps]
      exact (makeRoom_fewer later (k + 1) _).empty gone

/-- Making room answers and moves no child exactly when no pass that is reached
    takes anything. -/
theorem makeRoom_keeps_iff (router : Router) (entry : Entry) (call : Call C) (passes k : ℕ) (slots : Table C) :
    ((router.makeRoom entry call passes k slots).1 ≠ none ∧ Same slots (router.makeRoom entry call passes k slots).2) ↔
    ∀ i ≤ passes, (∀ j < i, HeldAt router entry (call.pass (k + j)) (metBy call k j slots)) →
      ¬ GoesAt router entry (call.pass (k + i)) (metBy call k i slots) := by
  by_cases goes : GoesAt router entry (call.pass k) slots
  · refine iff_of_false (makeRoom_goes goes passes) fun never => ?_
    exact never 0 (Nat.zero_le _) (fun j below => absurd below (Nat.not_lt_zero j)) goes
  · by_cases is : HeldAt router entry (call.pass k) slots
    · cases passes with
      | zero =>
        obtain ⟨failure,ends⟩ := makeRoom_expires is
        rw [ends]
        refine iff_of_true ⟨Option.some_ne_none _,meanwhile_same _ _⟩ fun i within _ => ?_
        rw [Nat.le_zero.mp within]
        exact goes
      | succ passes =>
        rw [makeRoom_sleeps is passes,(meanwhile_same (call.pass k) slots).iff_left,
          makeRoom_keeps_iff router entry call passes (k + 1) (meanwhile (call.pass k) slots)]
        constructor
        · intro later i within reached
          cases i with
          | zero => exact goes
          | succ i =>
            rw [show k + (i + 1) = k + 1 + i by omega]
            refine later i (Nat.le_of_succ_le_succ within) fun j below => ?_
            have := reached (j + 1) (Nat.succ_lt_succ below)
            rwa [show k + (j + 1) = k + 1 + j by omega] at this
        · intro all i within reached
          have := all (i + 1) (Nat.succ_le_succ within) fun j below => by
            cases j with
            | zero => exact is
            | succ j =>
              rw [show k + (j + 1) = k + 1 + j by omega]
              exact reached j (Nat.lt_of_succ_lt_succ below)
          rwa [show k + (i + 1) = k + 1 + i by omega] at this
    · obtain ⟨answer,ends⟩ := makeRoom_ends is goes passes
      rw [ends]
      refine iff_of_true ⟨Option.some_ne_none _,meanwhile_same _ _⟩ fun i within reached => ?_
      cases i with
      | zero => exact goes
      | succ i => exact absurd (reached 0 (Nat.succ_pos i)) is

end Passes

/-! ## A call whose start is impossible -/

section Whole
variable {C : Type} (router : Router) (machine : Launch.Machine) (entry : Entry) (call : Call C) (slots : Table C)

/-- The call is an error and every slot holds exactly the child it held
    before. -/
def Untouched (before : Table C) (outcome : Outcome C C) : Prop :=
  (∃ failure, outcome.1 = some (.error failure)) ∧ Same before outcome.2

/-- The slots as the first pass meets them. -/
def atDecision : Table C := (running call.queued entry.id (running call.fast entry.id slots).2).2

/-- No pass of the wait that is reached unloads anything, or panics. -/
def NothingGoes : Prop :=
  ∀ i ≤ call.passes, (∀ j < i, HeldAt router entry (call.pass j) (metBy call 0 j (atDecision entry call slots))) →
    ¬ GoesAt router entry (call.pass i) (metBy call 0 i (atDecision entry call slots))

variable {router machine entry call slots}

theorem start_fails (impossible : Launch.Impossible machine entry router.root) :
    ∃ failure, router.start machine entry call = .error failure := by
  obtain ⟨failure,ends⟩ := Launch.start_impossible impossible call.first call.second
  exact ⟨failure,by rw [Router.start,ends]; rfl⟩

/-- A missing model file is found before the decision. -/
theorem admit_noModel (empty : slots entry.id = none) (missing : Launch.NoModel machine entry router.root) :
    ∃ failure, router.admit machine entry call slots = (some (.error failure),(running call.queued entry.id slots).2) := by
  obtain ⟨failure,refused⟩ := Launch.modelFile_of_noModel missing
  refine ⟨failure,?_⟩
  have nothing := (running_empty call.queued empty).1
  rw [ Router.admit]
  rcases queued : running call.queued entry.id slots with ⟨found,left⟩
  rw [queued] at nothing
  cases nothing
  simp only [refused]

/-- A start that fails leaves what making room left. -/
theorem admit_noStart (empty : slots entry.id = none) (present : ¬ Launch.NoModel machine entry router.root)
    (impossible : Launch.Impossible machine entry router.root) {room : Outcome C Unit}
    (made : router.makeRoom entry call call.passes 0 (running call.queued entry.id slots).2 = room) :
    ( router.admit machine entry call slots).2 = room.2 ∧
    ((∃ failure, ( router.admit machine entry call slots).1 = some (.error failure)) ↔ room.1 ≠ none) := by
  obtain ⟨failure,fails⟩ : ∃ failure, router.start machine entry call = .error failure := start_fails impossible
  have nothing := (running_empty call.queued empty).1
  rw [ Router.admit]
  rcases queued : running call.queued entry.id slots with ⟨found,left⟩
  rw [queued] at nothing made
  cases nothing
  simp only [Launch.modelFile_of_present present,made,fails]
  obtain ⟨answer,later⟩ := room
  cases answer with
  | none => simp
  | some answer => cases answer <;> simp

/-- An error leaves the entry's own slot empty. -/
theorem admit_error_empty (empty : slots entry.id = none) (impossible : Launch.Impossible machine entry router.root) :
    ( router.admit machine entry call slots).2 entry.id = none := by
  have left := (running_empty call.queued empty).2.fewer.empty empty
  by_cases missing : Launch.NoModel machine entry router.root
  · obtain ⟨failure,ends⟩ := admit_noModel empty missing
    rw [ends]
    exact left
  · rw [(admit_noStart empty missing impossible rfl).1]
    exact (makeRoom_fewer _ _ _).empty left

/-- A call whose start is impossible is an error that moves no child exactly
    where the entry's own slot is empty and either the model file is what is
    missing or no pass that is reached unloads anything. -/
theorem untouched_iff (impossible : Launch.Impossible machine entry router.root) :
    Untouched slots (router.child machine entry call slots) ↔
      slots entry.id = none ∧ (Launch.NoModel machine entry router.root ∨ NothingGoes router entry call slots) := by
  by_cases empty : slots entry.id = none
  · have first := running_empty call.fast empty
    have still := (first.2.none_iff entry.id).mpr empty
    have met : Same slots (atDecision entry call slots) := first.2.trans (running_empty call.queued still).2
    have is : router.child machine entry call slots =
        router.admit machine entry call (running call.fast entry.id slots).2 := by
      have nothing := first.1
      rw [Router.child]
      rcases fast : running call.fast entry.id slots with ⟨found,left⟩
      rw [fast] at nothing
      cases nothing
      rfl
    rw [is,Untouched]
    by_cases missing : Launch.NoModel machine entry router.root
    · obtain ⟨failure,ends⟩ := admit_noModel still missing
      rw [ends]
      exact iff_of_true ⟨⟨failure,rfl⟩,met⟩ ⟨empty,.inl missing⟩
    · obtain ⟨leaves,answers⟩ := admit_noStart still missing impossible rfl
      rw [answers,leaves,met.iff_left]
      simp only [empty,missing,true_and,false_or]
      have keeps := makeRoom_keeps_iff router entry call call.passes 0 (atDecision entry call slots)
      simp only [Nat.zero_add] at keeps
      exact keeps
  · refine iff_of_false ?_ fun both => empty both.1
    rintro ⟨⟨failure,ends⟩,same⟩
    refine empty ((same.none_iff entry.id).mp ?_)
    rw [Router.child] at ends ⊢
    rcases fast : running call.fast entry.id slots with ⟨found,left⟩
    rw [fast] at ends
    cases found with
    | some child => cases ends
    | none =>
      have gone := (running_none call.fast (show (running call.fast entry.id slots).1 = none by rw [fast])).1
      rw [fast] at gone
      exact admit_error_empty gone impossible

end Whole

/-! ## A warm model beside an entry whose build is not installed -/

/-- A moment at which no other request has done anything. -/
def Moment.quiet {C : Type} (strong : C → ℕ) (now : ℕ) : Moment C := ⟨id,fun _ _ => rfl,strong,fun _ => .Running,now⟩

/-- Nobody reads, nothing is known of the device, and the first pass is the
    last one. -/
def Call.quiet {C : Type} (child : C) : Call C :=
  let moment := Moment.quiet (fun _ => 1) 1
  let answer : Launch.Attempt C := ⟨.ok 4000,.ok (.Ready child)⟩
  ⟨moment,moment,fun _ => ⟨none,moment,moment⟩,0,answer,answer,⟨none,none⟩,moment⟩

/-- An on-demand entry of 8 MiB. -/
def small (id : String) (runtime : Option String) : Entry :=
  ⟨id,id,none,none,4096,.OnDemand,8,none,none,30,runtime,[]⟩

/-- Two small entries in a budget for one of them. -/
def smallRouter : Router where
  catalog := ⟨[small "warm" none,small "wanted" (some "rpc")],by decide⟩
  budget := ⟨some 10⟩
  wait := 0
  server := ⟨"/bin/llama-server"⟩
  root := "/models"

/-- The first of them is loaded. -/
def warmSlots : Table ℕ := fun id => if id = "warm" then some ⟨0,0,⟨none,none⟩⟩ else none

/-- A stale path costs nothing. -/
theorem stale_path_untouched :
    Untouched warmSlots (smallRouter.child ⟨fun _ => false,some ["/bin"]⟩ (small "wanted" none) (.quiet 1) warmSlots) := by
  have missing : Launch.NoModel ⟨fun _ => false,some ["/bin"]⟩ (small "wanted" none) smallRouter.root := rfl
  exact (untouched_iff (.inl missing)).mpr ⟨rfl,.inl missing⟩

/-- A build that is not installed costs the warm model. -/
theorem missing_runtime_unloads : ¬ ∀ (router : Router) (machine : Launch.Machine) (entry : Entry) (call : Call ℕ)
    (slots : Table ℕ), Launch.Impossible machine entry router.root →
      Untouched slots (router.child machine entry call slots) := by
  intro always
  have impossible : Launch.Impossible ⟨fun file => file = "/models/wanted",some ["/bin"]⟩ (small "wanted" (some "rpc")) "/models" :=
    .inr ⟨"rpc",rfl,by decide +kernel⟩
  have untouched := always smallRouter _ _ (.quiet 1) warmSlots impossible
  have kept := untouched.2 "warm"
  revert kept
  decide +kernel

end Maestro.Slots
