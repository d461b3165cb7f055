import Maestro.Readiness
import Maestro.RoomWait

/-!
# How long one admission holds the lock

What a request does under the admission lock against the clock, in nanoseconds,
put together from the wait for room and the start. It is the admission that was
taken as given, with the passes and the attempts the clock comes to.
-/
namespace Maestro.Slots
open Launch (Attempt Trial startupBudget POLL_INTERVAL)
open Polling (Ending Ends Lap)

/-- What an admission meets: the look at its own slot and for the model file,
    the passes, the attempts to start, the measurement and the moment of the
    insertion, with what they take. -/
structure Admitting (C : Type) where
  queued : Moment C
  looking : ℕ
  pass : ℕ → Pass C
  laps : ℕ → Lap
  first : Trial C
  second : Trial C
  measured : Measurement
  measuring : ℕ
  placing : Moment C

section
variable {C : Type} (self : Router) (machine : Launch.Machine) (entry : Entry) (admitting : Admitting C)

/-- Once there is room: the child is started and measured, and takes its
    slot. -/
def Router.startFrom (fuel now : ℕ) (slots : Table C) : Option (Outcome C C × ℕ) :=
  (Launch.startFrom machine self.server entry self.root fuel now admitting.first admitting.second).map fun
    | (.error failure, now) => ((some (.error failure), slots), now)
    | (.ok child, now) =>
      ((some (.ok child), Function.update (admitting.placing.others slots) entry.id
        (some ⟨child,admitting.placing.now,admitting.measured⟩)), now + admitting.measuring)

/-- Starts a child for this entry, unloading what has to go first: what it comes
    to and when the lock is released. -/
def Router.admitFrom (fuel start : ℕ) (slots : Table C) : Option (Outcome C C × ℕ) :=
  let looked := start + admitting.looking
  match running admitting.queued entry.id slots with
  | (some child, slots) => some ((some (.ok child), slots), looked)
  | (none, slots) => match Launch.modelFile machine entry self.root with
    | .error failure => some ((some (.error failure), slots), looked)
    | .ok _ => match self.makeRoomFrom entry admitting.pass admitting.laps fuel looked slots with
      | none => none
      | some ending => match self.outcome entry ending with
        | (none, slots) => some ((none, slots), ending.ended)
        | (some (.error failure), slots) => some ((some (.error failure), slots), ending.ended)
        | (some (.ok ()), slots) => self.startFrom machine entry admitting fuel ending.ended slots

/-- The call an admission is, for as many passes and for what its attempts come
    to. -/
def Admitting.call (passes : ℕ) (first second : Attempt C) : Call C :=
  ⟨admitting.queued,admitting.queued,admitting.pass,passes,first,second,admitting.measured,admitting.placing⟩

/-- What the parts of an admission take at most. -/
structure Admitting.Within (looking deciding spawning asking late measuring : ℕ) : Prop where
  looking : admitting.looking ≤ looking
  deciding : ∀ k, (admitting.laps k).work ≤ deciding
  sleeping : ∀ k, (admitting.laps k).late ≤ late
  first : admitting.first.Within spawning asking late
  second : admitting.second.Within spawning asking late
  measuring : admitting.measuring ≤ measuring

/-- Fuel for both loops of an admission. -/
def Router.fuel : ℕ := max (self.wait / SWEEP + 2) (startupBudget entry / POLL_INTERVAL + 2)

variable {self machine entry admitting} {slots : Table C}

theorem fuel_wait {fuel : ℕ} (enough : self.fuel entry ≤ fuel) : self.wait / SWEEP + 2 ≤ fuel := (le_max_left _ _).trans enough

theorem fuel_start {fuel : ℕ} (enough : self.fuel entry ≤ fuel) : startupBudget entry / POLL_INTERVAL + 2 ≤ fuel :=
  (le_max_right _ _).trans enough

theorem modelFile_failure {failure : Failure} {root : String} (missing : Launch.modelFile machine entry root = .error failure) :
    ∃ message, failure = .Unavailable message := by
  rw [Launch.modelFile] at missing
  split_ifs at missing
  cases missing
  exact ⟨_,rfl⟩

/-- Once there is room an admission ends as its start does. -/
theorem startFrom_ends (self : Router) (machine : Launch.Machine) (entry : Entry) (admitting : Admitting C) (roomy : ℕ)
    (slots : Table C) : ∃ first second outcome now,
      (∀ fuel, startupBudget entry / POLL_INTERVAL + 2 ≤ fuel →
        self.startFrom machine entry admitting fuel roomy slots = some (outcome,now)) ∧
      (∀ passes, outcome = match self.start machine entry (admitting.call passes first second) with
        | .error failure => (some (.error failure),slots)
        | .ok loaded => (some (.ok loaded.child),Function.update (admitting.placing.others slots) entry.id (some loaded))) ∧
      (∀ message, outcome.1 ≠ some (.error (.Contended message))) ∧
      (∀ message, outcome.1 = some (.error (.NotReady message)) → roomy + startupBudget entry ≤ now) ∧
      ∀ looking deciding spawning asking late measuring, admitting.Within looking deciding spawning asking late measuring →
        now ≤ roomy + 2 * (spawning + startupBudget entry + POLL_INTERVAL + late + asking) + measuring := by
  obtain ⟨again,result,now,runs,is,unready,soon⟩ :=
    Launch.start_ends machine self.server entry self.root admitting.first admitting.second roomy
  refine ⟨admitting.first.answer entry (roomy + admitting.first.spawning),
    admitting.second.answer entry (again + admitting.second.spawning),?_⟩
  cases result with
  | error failure =>
    have started (passes : ℕ) : self.start machine entry (admitting.call passes
        (admitting.first.answer entry (roomy + admitting.first.spawning))
        (admitting.second.answer entry (again + admitting.second.spawning))) = .error failure := by
      rw [Router.start,Admitting.call,← is]
      rfl
    refine ⟨(some (.error failure),slots),now,fun fuel enough => ?_,fun passes => by rw [started],fun message contended => ?_,
      fun message late => ?_,fun looking deciding spawning asking late measuring within => ?_⟩
    · rw [Router.startFrom,runs fuel enough]
      rfl
    · cases contended
      rcases Launch.start_failure is.symm with ⟨_,other⟩ | ⟨_,other⟩ <;> cases other
    · cases late
      exact unready message rfl
    · have := soon spawning asking late within.first within.second
      omega
  | ok child =>
    have started (passes : ℕ) : self.start machine entry (admitting.call passes
        (admitting.first.answer entry (roomy + admitting.first.spawning))
        (admitting.second.answer entry (again + admitting.second.spawning))) =
        .ok ⟨child,admitting.placing.now,admitting.measured⟩ := by
      rw [Router.start,Admitting.call,← is]
      rfl
    refine ⟨_,now + admitting.measuring,fun fuel enough => ?_,fun passes => by rw [started],fun _ => by simp,fun _ => by simp,
      fun looking deciding spawning asking late measuring within => ?_⟩
    · rw [Router.startFrom,runs fuel enough]
      rfl
    · have := soon spawning asking late within.first within.second
      have := within.measuring
      omega

/-- An admission ends, as it does over the passes and the attempts that the clock
    comes to. It gives up on its room only after the whole wait and on its child
    only after a whole startup budget, and it is over once both have passed, the
    budget twice, each with an interval and a late sleep, and with what a look, a
    pass, two spawns, two rounds and a measurement take. -/
theorem admission_in_time (self : Router) (machine : Launch.Machine) (entry : Entry) (admitting : Admitting C) (start : ℕ)
    (slots : Table C) : ∃ passes first second outcome now,
      (∀ fuel, self.fuel entry ≤ fuel → self.admitFrom machine entry admitting fuel start slots = some (outcome,now)) ∧
      outcome = self.admit machine entry (admitting.call passes first second) slots ∧
      (∀ message, outcome.1 = some (.error (.Contended message)) → start + self.wait ≤ now) ∧
      (∀ message, outcome.1 = some (.error (.NotReady message)) → start + startupBudget entry ≤ now) ∧
      ∀ looking deciding spawning asking late measuring, admitting.Within looking deciding spawning asking late measuring →
        now ≤ start + looking + (self.wait + SWEEP + late + deciding) +
          2 * (spawning + startupBudget entry + POLL_INTERVAL + late + asking) + measuring := by
  have none_asked : Attempt C := ⟨.error "",.error ""⟩
  rcases looked : running admitting.queued entry.id slots with ⟨found,slots'⟩
  have seen (passes : ℕ) (first second : Attempt C) :
      running (admitting.call passes first second).queued entry.id slots = (found,slots') := looked
  cases found with
  | some child =>
    refine ⟨0,none_asked,none_asked,(some (.ok child),slots'),start + admitting.looking,fun fuel _ => ?_,?_,by simp,by simp,
      fun looking deciding spawning asking late measuring within => ?_⟩
    · rw [Router.admitFrom,looked]
    · rw [ Router.admit,seen]
    · have := within.looking
      omega
  | none =>
    cases filed : Launch.modelFile machine entry self.root with
    | error failure =>
      obtain ⟨message,rfl⟩ := modelFile_failure filed
      refine ⟨0,none_asked,none_asked,(some (.error (.Unavailable message)),slots'),start + admitting.looking,fun fuel _ => ?_,?_,
        by simp,by simp,fun looking deciding spawning asking late measuring within => ?_⟩
      · simp only [Router.admitFrom,looked,filed]
      · simp only [ Router.admit,seen,filed]
      · have := within.looking
        omega
    | ok model =>
      obtain ⟨ending,runs,ends⟩ :=
        makeRoomFrom_ends self entry admitting.pass admitting.laps (start + admitting.looking) slots'
      have made (first second : Attempt C) : self.makeRoom entry (admitting.call ending.round first second)
          (admitting.call ending.round first second).passes 0 slots' = self.outcome entry ending := makeRoom_ending ends
      have since := ends.since
      have soon (looking deciding spawning asking late measuring : ℕ)
          (within : admitting.Within looking deciding spawning asking late measuring) :
          ending.ended ≤ start + looking + (self.wait + SWEEP + late + deciding) := by
        have soon := ends.soon within.deciding within.sleeping
        have := within.looking
        rw [max_eq_right (by omega)] at soon
        omega
      rcases came : self.outcome entry ending with ⟨result,left⟩
      cases result with
      | none =>
        refine ⟨ending.round,none_asked,none_asked,(none,left),ending.ended,fun fuel enough => ?_,?_,by simp,by simp,
          fun looking deciding spawning asking late measuring within => ?_⟩
        · simp only [Router.admitFrom,looked,filed,runs fuel (fuel_wait enough),came]
        · simp only [ Router.admit,seen,filed]
          rw [made,came]
        · have := soon looking deciding spawning asking late measuring within
          omega
      | some result =>
        cases result with
        | error failure =>
          refine ⟨ending.round,none_asked,none_asked,(some (.error failure),left),ending.ended,fun fuel enough => ?_,?_,
            fun message contended => ?_,fun message late => ?_,fun looking deciding spawning asking late measuring within => ?_⟩
          · simp only [Router.admitFrom,looked,filed,runs fuel (fuel_wait enough),came]
          · simp only [ Router.admit,seen,filed]
            rw [made,came]
          · cases contended
            obtain ⟨held,unanswered⟩ := (contended_iff ends).mp ⟨message,by rw [came]⟩
            have := ends.gave_up unanswered
            omega
          · cases late
            rcases outcome_failure ends (by rw [came]) with ⟨_,other⟩ | ⟨_,other⟩ <;> cases other
          · have := soon looking deciding spawning asking late measuring within
            omega
        | ok placed =>
          obtain ⟨first,second,outcome,now,starts,is,uncontended,unready,late⟩ :=
            startFrom_ends self machine entry admitting ending.ended left
          refine ⟨ending.round,first,second,outcome,now,fun fuel enough => ?_,?_,fun message contended => ?_,fun message unready' => ?_,
            fun looking deciding spawning asking slack measuring within => ?_⟩
          · simp only [Router.admitFrom,looked,filed,runs fuel (fuel_wait enough),came]
            exact starts fuel (fuel_start enough)
          · simp only [ Router.admit,seen,filed]
            rw [made,came]
            exact is ending.round
          · exact absurd contended (uncontended message)
          · have := unready message unready'
            omega
          · have := soon looking deciding spawning asking slack measuring within
            have := late looking deciding spawning asking slack measuring within
            omega

end
end Maestro.Slots
