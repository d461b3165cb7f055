import Maestro.Polling
import Maestro.ImpossibleStart

/-!
# How long a request waits for room

The loop of `make_room` against the clock, in nanoseconds: what each pass and
each sleep takes is told for the pass. It is the loop over passes that was taken
as given, with the passes the clock leaves it.
-/
namespace Maestro.MakeRoom
open Admission (Decision)

/-- What a pass ends the loop with, `none` for a panic, or what it reports to be
    holding the room. -/
def answer (id : String) (decision : Decision) (blocker : Option String) : Except String (Option (Except Failure Unit)) :=
  match decision with
  | .Fits => .ok (some (.ok ()))
  | .Unload _ => match blocker with
    | none => .ok (some (.ok ()))
    | some blocker => .error s!"'{id}' needs room held by '{blocker}', which a request reached first"
  | .Blocked message => .error message
  | .Refuse message => .ok (some (.error (.Refused message)))

variable {id held : String} {decision : Decision} {blocker : Option String} {waited : ℕ}

theorem turn_held (report : answer id decision blocker = .error held) (expired : Bool) :
    turn id decision blocker waited expired = heldBy id held waited expired := by
  cases decision with
  | Fits | Refuse => cases report
  | Blocked message =>
    cases report
    rfl
  | Unload ids =>
    cases blocker <;> cases report
    rfl

theorem turn_answered {result : Except Failure Unit} (answers : answer id decision blocker = .ok (some result)) (expired : Bool) :
    turn id decision blocker waited expired = match result with
      | .ok () => .Room
      | .error failure => .Fails failure := by
  cases decision with
  | Fits | Refuse =>
    cases answers
    rfl
  | Blocked message => cases answers
  | Unload ids =>
    cases blocker <;> cases answers
    rfl

theorem answer_ne_none : answer id decision blocker ≠ .ok none := by
  cases decision with
  | Unload ids => cases blocker <;> exact nofun
  | _ => exact nofun

/-- What ends the loop of itself and is no room is a refusal for good. -/
theorem answer_error {failure : Failure} (fails : answer id decision blocker = .ok (some (.error failure))) :
    ∃ message, failure = .Refused message := by
  cases decision with
  | Unload ids => cases blocker <;> cases fails
  | Fits | Blocked => cases fails
  | Refuse message =>
    cases fails
    exact ⟨message,rfl⟩

end Maestro.MakeRoom

namespace Maestro.Slots
open Admission (Decision)
open Polling (Lap Ending Ends poll)

/-- How often the wait re-asks whether the room has freed up. -/
def SWEEP : ℕ := 250000000

section
variable {C : Type} (self : Router) (entry : Entry) (pass : ℕ → Pass C)

/-- One pass, up to the look at the clock. -/
def Router.ask (k : ℕ) (slots : Table C) : Except String (Option (Except Failure Unit)) × Table C :=
  match self.weigh entry (pass k) slots with
  | none => (.ok none, slots)
  | some decision =>
    match act (pass k) decision slots with
    | (blocker, slots) => (MakeRoom.answer entry.id decision blocker, slots)

/-- The loop of `make_room`, begun at `start`; `none` once the fuel is spent. -/
def Router.makeRoomFrom (laps : ℕ → Lap) (fuel start : ℕ) (slots : Table C) :
    Option (Ending (Table C) (Option (Except Failure Unit)) String) :=
  poll SWEEP (start + self.wait) laps (self.ask entry pass) fuel 0 start slots

/-- How the loop ends: where it gave up, with the refusal of a wait that ran
    out. -/
def Router.outcome (ending : Ending (Table C) (Option (Except Failure Unit)) String) : Outcome C Unit :=
  match ending.found with
  | .ok answer => (answer, ending.state)
  | .error held => (some (.error (MakeRoom.refused entry.id held self.wait)), ending.state)

variable {self entry pass} {call : Call C} {slots : Table C} {laps : ℕ → Lap} {start : ℕ}
  {ending : Ending (Table C) (Option (Except Failure Unit)) String}

theorem sweep_pos : 0 < SWEEP := by decide

/-- A pass that is held leaves the passes after it. -/
theorem makeRoom_held {k : ℕ} {held : String} (asked : (self.ask entry call.pass k slots).1 = .error held) (passes : ℕ) :
    self.makeRoom entry call (passes + 1) k slots = self.makeRoom entry call passes (k + 1) (self.ask entry call.pass k slots).2 ∧
    self.makeRoom entry call 0 k slots =
      (some (.error (MakeRoom.refused entry.id held self.wait)),(self.ask entry call.pass k slots).2) := by
  cases weighed : self.weigh entry (call.pass k) slots with
  | none =>
    rw [Router.ask,weighed] at asked
    cases asked
  | some decision =>
    rcases done : act (call.pass k) decision slots with ⟨blocker,left⟩
    have asks : self.ask entry call.pass k slots = (MakeRoom.answer entry.id decision blocker,left) := by
      rw [Router.ask,weighed]
      simp only [done]
    rw [asks] at asked ⊢
    have turns (expired : Bool) : MakeRoom.turn entry.id decision blocker self.wait expired =
        MakeRoom.heldBy entry.id held self.wait expired := MakeRoom.turn_held asked expired
    constructor
    · rw [Router.makeRoom,weighed]
      simp only [done,turns]
      rfl
    · rw [Router.makeRoom,weighed]
      simp only [done,turns,decide_true]
      rfl

/-- A pass that answers is the last, however many are left. -/
theorem makeRoom_answered {k : ℕ} {answer : Option (Except Failure Unit)} (asked : (self.ask entry call.pass k slots).1 = .ok answer)
    (passes : ℕ) : self.makeRoom entry call passes k slots = (answer,(self.ask entry call.pass k slots).2) := by
  cases weighed : self.weigh entry (call.pass k) slots with
  | none =>
    have asks : self.ask entry call.pass k slots = (.ok none,slots) := by rw [Router.ask,weighed]
    rw [asks] at asked ⊢
    cases asked
    rw [Router.makeRoom,weighed]
  | some decision =>
    rcases done : act (call.pass k) decision slots with ⟨blocker,left⟩
    have asks : self.ask entry call.pass k slots = (MakeRoom.answer entry.id decision blocker,left) := by
      rw [Router.ask,weighed]
      simp only [done]
    rw [asks] at asked ⊢
    rw [Router.makeRoom,weighed]
    cases answer with
    | none => exact absurd asked MakeRoom.answer_ne_none
    | some result =>
      simp only [done,MakeRoom.turn_answered asked]
      cases result <;> rfl

/-- The loop over as many passes as the clock left is the loop against the
    clock. -/
theorem makeRoom_ending (ends : Ends SWEEP (start + self.wait) laps (self.ask entry call.pass) start slots ending) :
    self.makeRoom entry call ending.round 0 slots = self.outcome entry ending := by
  have rest (passes k : ℕ) (is : k + passes = ending.round) :
      self.makeRoom entry call passes k (Polling.reached (self.ask entry call.pass) slots k) = self.outcome entry ending := by
    induction passes generalizing k with
    | zero =>
      obtain rfl : k = ending.round := by omega
      have found := ends.found
      rw [Polling.finds] at found
      rw [Router.outcome,ends.state,found]
      cases asked : (self.ask entry call.pass ending.round (Polling.reached (self.ask entry call.pass) slots ending.round)).1 with
      | ok answer => exact makeRoom_answered asked 0
      | error held => exact (makeRoom_held asked 0).2
    | succ passes ih =>
      obtain ⟨⟨held,asked⟩,_⟩ := ends.earlier k (by omega)
      rw [(makeRoom_held asked passes).1]
      exact ih (k + 1) (by omega)
  exact rest ending.round 0 (Nat.zero_add _)

/-- Contention is what a wait that ran out ends with, and nothing else. -/
theorem contended_iff (ends : Ends SWEEP (start + self.wait) laps (self.ask entry pass) start slots ending) :
    (∃ message, (self.outcome entry ending).1 = some (.error (.Contended message))) ↔ ∃ held, ending.found = .error held := by
  rw [Router.outcome]
  cases found : ending.found with
  | error held =>
    refine ⟨fun _ => ⟨held,rfl⟩,fun _ => ?_⟩
    simp only [MakeRoom.refused]
    split_ifs <;> exact ⟨_,rfl⟩
  | ok answer =>
    refine iff_of_false ?_ (by simp)
    rintro ⟨message,rfl⟩
    rw [ends.found,Polling.finds] at found
    cases weighed : self.weigh entry (pass ending.round) (Polling.reached (self.ask entry pass) slots ending.round) with
    | none =>
      rw [Router.ask,weighed] at found
      cases found
    | some decision =>
      rw [Router.ask,weighed] at found
      obtain ⟨_,refused⟩ := MakeRoom.answer_error found
      cases refused

/-- The wait fails for want of room, and for nothing else. -/
theorem outcome_failure {failure : Failure} (ends : Ends SWEEP (start + self.wait) laps (self.ask entry pass) start slots ending)
    (failed : (self.outcome entry ending).1 = some (.error failure)) :
    (∃ message, failure = .Refused message) ∨ ∃ message, failure = .Contended message := by
  rw [Router.outcome] at failed
  cases found : ending.found with
  | error held =>
    rw [found] at failed
    simp only [MakeRoom.refused] at failed
    split_ifs at failed <;> cases failed <;> exact .inr ⟨_,rfl⟩
  | ok answer =>
    rw [found] at failed
    rw [ends.found,Polling.finds] at found
    cases weighed : self.weigh entry (pass ending.round) (Polling.reached (self.ask entry pass) slots ending.round) with
    | none =>
      rw [Router.ask,weighed] at found
      cases found
      cases failed
    | some decision =>
      rw [Router.ask,weighed] at found
      cases failed
      exact .inl (MakeRoom.answer_error found)

/-! ## A pass that meets no reader -/

/-- Nobody reads, when the pass weighs the slots and when it acts, from an
    on-demand model other than the entry's own. -/
def Unread (self : Router) (entry : Entry) (pass : Pass C) (slots : Table C) : Prop :=
  ∀ other ∈ self.catalog.entries, other.residency = .OnDemand → other.id ≠ entry.id →
    ∀ child, (slots other.id).map Loaded.child = some child → pass.weighing.strong child ≤ 1 ∧ pass.acting.strong child ≤ 1

/-- What the pass sees of a model it may not take is who reads it. -/
theorem held_unread {pass : Pass C} (unread : Unread self entry pass slots) {record : Admission.Loaded}
    (member : record ∈ held self.catalog pass.weighing.strong (pass.weighing.others slots)) (onDemand : record.residency = .OnDemand)
    (other : record.id ≠ entry.id) : record.busy = false := by
  obtain ⟨subject,listed,found⟩ := List.mem_filterMap.mp member
  obtain ⟨loaded,there,rfl⟩ := Option.map_eq_some_iff.mp found
  have was : (slots subject.id).map Loaded.child = some loaded.child := by
    rw [← pass.weighing.keeps slots subject.id,there]
    rfl
  have alone := (unread subject listed onDemand other loaded.child was).1
  exact decide_eq_false (not_lt.mpr alone)

theorem unload_unread {strong : C → ℕ} {ids : List String}
    (idle : ∀ id ∈ ids, ∀ held, slots id = some held → busy strong held.child = false) : (unload strong ids slots).1 = none := by
  induction ids generalizing slots with
  | nil => rfl
  | cons id ids ih =>
    rw [unload]
    cases there : slots id with
    | none => exact ih fun other named => idle other (List.mem_cons_of_mem id named)
    | some held =>
      have taken : takeIfIdle strong (fun _ => true) (some held) = (.Taken held,none) := by
        simp [takeIfIdle,idle id (List.mem_cons_self ..) held there]
      rw [taken]
      refine ih fun other named found is => ?_
      by_cases this : other = id
      · subst this
        rw [Function.update_self] at is
        cases is
      · rw [Function.update_of_ne this] at is
        exact idle other (List.mem_cons_of_mem id named) found is

/-- A pass that meets no reader is the last. -/
theorem ask_unread {k : ℕ} (unread : Unread self entry (pass k) slots) :
    ∃ answer, (self.ask entry pass k slots).1 = .ok answer := by
  cases weighed : self.weigh entry (pass k) slots with
  | none => exact ⟨none,by rw [Router.ask,weighed]⟩
  | some decision =>
    rw [Router.ask,weighed]
    cases decision with
    | Fits => exact ⟨_,rfl⟩
    | Refuse message => exact ⟨_,rfl⟩
    | Blocked message =>
      obtain ⟨record,member,frees⟩ := List.any_eq_true.mp (Admission.frees_of_blocked weighed)
      simp only [Bool.and_eq_true,decide_eq_true_eq] at frees
      obtain ⟨⟨onDemand,read⟩,other⟩ := frees
      rw [held_unread unread member onDemand other] at read
      cases read
    | Unload ids =>
      have stops : (unload (pass k).acting.strong ids (meanwhile (pass k) slots)).1 = none := by
        refine unload_unread fun id named held there => ?_
        obtain ⟨chosen,rfl,part,_⟩ := Admission.unload_room weighed
        obtain ⟨record,among,rfl⟩ := List.mem_map.mp named
        obtain ⟨member,onDemand,_,other⟩ := Admission.mem_candidates.mp (part.subset among)
        obtain ⟨subject,listed,found⟩ := List.mem_filterMap.mp member
        obtain ⟨loaded,_,rfl⟩ := Option.map_eq_some_iff.mp found
        have was : (slots subject.id).map Loaded.child = some held.child := by
          rw [← (pass k).weighing.keeps slots subject.id,← (pass k).acting.keeps,← meanwhile]
          exact congrArg (Option.map Loaded.child) there
        have alone := (unread subject listed onDemand other held.child was).2
        exact decide_eq_false (not_lt.mpr alone)
      simp only [act]
      rcases done : unload (pass k).acting.strong ids (meanwhile (pass k) slots) with ⟨blocker,left⟩
      rw [done] at stops
      cases stops
      exact ⟨_,rfl⟩

/-! ## The wait -/

theorem makeRoomFrom_ends (self : Router) (entry : Entry) (pass : ℕ → Pass C) (laps : ℕ → Lap) (start : ℕ) (slots : Table C) :
    ∃ ending, (∀ fuel, self.wait / SWEEP + 2 ≤ fuel → self.makeRoomFrom entry pass laps fuel start slots = some ending) ∧
      Ends SWEEP (start + self.wait) laps (self.ask entry pass) start slots ending := by
  refine ⟨_,fun fuel enough => ?_,Polling.settle_ends sweep_pos⟩
  refine Polling.poll_eq_settle sweep_pos ?_
  rwa [Polling.rounds,Nat.add_sub_cancel_left]

/-- The wait for room ends, however long a pass takes and whatever it meets: it
    is the loop over one pass more than it slept, it sleeps no more often than
    its interval fits into the wait, begun ones included, it calls its room
    contended only once the whole wait is over, and it ends an interval, a late
    sleep and a pass after that at most. -/
theorem room_wait (self : Router) (entry : Entry) (call : Call C) (laps : ℕ → Lap) (start : ℕ) (slots : Table C) :
    ∃ ending, (∀ fuel, self.wait / SWEEP + 2 ≤ fuel → self.makeRoomFrom entry call.pass laps fuel start slots = some ending) ∧
      self.makeRoom entry call ending.round 0 slots = self.outcome entry ending ∧
      ending.round * SWEEP < self.wait + SWEEP ∧
      ((∃ message, (self.outcome entry ending).1 = some (.error (.Contended message))) → start + self.wait ≤ ending.ended) ∧
      ∀ work late, (∀ k, (laps k).work ≤ work) → (∀ k, (laps k).late ≤ late) →
        ending.ended ≤ start + self.wait + SWEEP + late + work := by
  obtain ⟨ending,runs,ends⟩ := makeRoomFrom_ends self entry call.pass laps start slots
  refine ⟨ending,runs,makeRoom_ending ends,?_,fun contended => ?_,fun work late working sleeping => ?_⟩
  · cases round : ending.round with
    | zero =>
      have := sweep_pos
      omega
    | succ k =>
      have := ends.rounds round
      rw [Nat.add_one_mul]
      omega
  · obtain ⟨held,unanswered⟩ := (contended_iff ends).mp contended
    exact ends.gave_up unanswered
  · have soon := ends.soon working sleeping
    rwa [max_eq_right (by omega)] at soon

/-- Once nobody reads any more from what could make room, a request that waits
    is answered within a sweep, and not with contention, if there is time for
    one more pass. -/
theorem room_when_unread (self : Router) (entry : Entry) (pass : ℕ → Pass C) (laps : ℕ → Lap) (start : ℕ) (slots : Table C)
    {since work late : ℕ} (working : ∀ k, (laps k).work ≤ work) (sleeping : ∀ k, (laps k).late ≤ late)
    (early : since + work ≤ start + self.wait)
    (unread : ∀ k, since ≤ Polling.begins SWEEP laps start k →
      Unread self entry (pass k) (Polling.reached (self.ask entry pass) slots k)) :
    ∃ ending, (∀ fuel, self.wait / SWEEP + 2 ≤ fuel → self.makeRoomFrom entry pass laps fuel start slots = some ending) ∧
      (∀ message, (self.outcome entry ending).1 ≠ some (.error (.Contended message))) ∧
      ending.ended ≤ max start (since + work + SWEEP + late) + work := by
  obtain ⟨ending,runs,ends⟩ := makeRoomFrom_ends self entry pass laps start slots
  obtain ⟨⟨answer,answered⟩,soon⟩ := ends.prompt working sleeping early fun k after => ask_unread (unread k after)
  refine ⟨ending,runs,fun message contended => ?_,soon⟩
  obtain ⟨held,unanswered⟩ := (contended_iff ends).mp ⟨message,contended⟩
  rw [answered] at unanswered
  cases unanswered

end

/-! ## A reader that stays for three passes -/

/-- The passes are not counted on: somebody reads what is loaded until the
    fourth. -/
def readThrice : Call ℕ :=
  { Call.quiet 1 with
    pass := fun k =>
      let moment := Moment.quiet (fun _ => if k < 3 then 2 else 1) 1
      ⟨none,moment,moment⟩ }

/-- Two small entries in a budget for one of them, and a second to wait. -/
def patientRouter : Router := { smallRouter with wait := 1000000000 }

/-- The second of them is let in after three quarters of it. -/
theorem reader_waited_for : ∃ ending,
    patientRouter.makeRoomFrom (small "wanted" none) readThrice.pass (fun _ => ⟨0,0⟩) 6 0 warmSlots = some ending ∧
      ending.ended ≤ 1000000000 := by
  have later (k : ℕ) (after : 750000000 ≤ Polling.begins SWEEP (fun _ => ⟨0,0⟩) 0 k) : ¬ k < 3 := by
    intro early
    obtain rfl | rfl | rfl : k = 0 ∨ k = 1 ∨ k = 2 := by omega
    all_goals simp [Polling.begins,SWEEP] at after
  have in_time : 750000000 + 0 ≤ 0 + patientRouter.wait := by decide
  obtain ⟨ending,runs,_,soon⟩ := room_when_unread patientRouter (small "wanted" none) readThrice.pass (fun _ => ⟨0,0⟩) 0 warmSlots
    (fun _ => le_rfl) (fun _ => le_rfl) in_time fun k after other _ _ _ child _ => by
      have idle : (if k < 3 then 2 else 1) ≤ 1 := by rw [if_neg (later k after)]
      exact ⟨idle,idle⟩
  exact ⟨ending,runs 6 (by decide),soon⟩

end Maestro.Slots
