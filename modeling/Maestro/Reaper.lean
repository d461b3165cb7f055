import Maestro.IdleSweep

/-!
# When the reaper sweeps

The loop of the reaper's thread against the clock, in nanoseconds: each deadline
is the last deadline plus the interval, whatever a sweep took, and a sweep that
outlasts its interval is followed by the next at once. What a sweep meets while
it runs is any run of the router.
-/
namespace Maestro.Threads
open Slots (Loaded Slot Table)

/-! ## The schedule -/

/-- The floor under the derived sweep interval. -/
def MIN_INTERVAL : ℕ := 100000000

/-- Half the window, floored. -/
def interval (duration : ℕ) : ℕ := max (duration / 2) MIN_INTERVAL

/-- The reaper at the top of its loop. -/
structure Loop where
  now : ℕ
  deadline : Option ℕ
deriving DecidableEq, Repr

section Loop
variable (self : Loop) (duration : ℕ)

def Loop.next : ℕ := self.deadline.getD self.now + interval duration

/-- The wait up to the next deadline; none is left once it has passed. -/
def Loop.timeout : ℕ := self.next duration - self.now

/-- When the sweep begins, if no signal cuts the wait short. -/
def Loop.sweepsAt : ℕ := self.now + self.timeout duration

/-- The top of the loop again, once that sweep has taken `sweep`. -/
def Loop.after (sweep : ℕ) : Loop := ⟨self.sweepsAt duration + sweep,some (self.next duration)⟩

end Loop

section Schedule
variable (duration started : ℕ) (sweeps : ℕ → ℕ)

/-- The top of the loop before each sweep, when the sweeps take this long. -/
def loops : ℕ → Loop
  | 0 => ⟨started,none⟩
  | k + 1 => (loops k).after duration (sweeps k)

/-- When each sweep begins. -/
def sweepStart (k : ℕ) : ℕ := (loops duration started sweeps k).sweepsAt duration

variable {duration started sweeps}

theorem interval_pos : 0 < interval duration := Nat.lt_of_lt_of_le (by decide) (le_max_right _ _)

/-- The deadlines are the start plus whole intervals, however long the sweeps. -/
theorem deadline_eq (k : ℕ) : (loops duration started sweeps k).next duration = started + (k + 1) * interval duration := by
  induction k with
  | zero => simp [loops,Loop.next]
  | succ k ih =>
    have step : (loops duration started sweeps (k + 1)).next duration =
        (loops duration started sweeps k).next duration + interval duration := rfl
    rw [step,ih,Nat.add_mul (k + 1) 1,Nat.one_mul,Nat.add_assoc]

theorem sweepsAt_eq (self : Loop) : self.sweepsAt duration = max self.now (self.next duration) := by
  simp only [Loop.sweepsAt,Loop.timeout]
  omega

theorem sweepStart_zero : sweepStart duration started sweeps 0 = started + interval duration := by
  simp [sweepStart,sweepsAt_eq,loops,Loop.next]

/-- A sweep begins at the end of the one before it or at its own deadline,
    whichever is later. -/
theorem sweepStart_succ (k : ℕ) : sweepStart duration started sweeps (k + 1) =
    max (sweepStart duration started sweeps k + sweeps k) (started + (k + 2) * interval duration) := by
  rw [sweepStart,sweepsAt_eq,deadline_eq]
  rfl

theorem deadline_le (k : ℕ) : started + (k + 1) * interval duration ≤ sweepStart duration started sweeps k := by
  rw [sweepStart,sweepsAt_eq,deadline_eq]
  exact le_max_right _ _

/-- Two sweeps in a row begin at most an interval, or the first one's length,
    apart. -/
theorem sweepStart_gap (k : ℕ) : sweepStart duration started sweeps (k + 1) ≤
    sweepStart duration started sweeps k + max (interval duration) (sweeps k) := by
  have reached : started + (k + 1) * interval duration ≤ sweepStart duration started sweeps k := deadline_le k
  rw [sweepStart_succ]
  refine max_le ?_ ?_
  · have := le_max_right (interval duration) (sweeps k)
    omega
  · have := le_max_left (interval duration) (sweeps k)
    have one : (k + 2) * interval duration = (k + 1) * interval duration + interval duration := by
      rw [Nat.add_mul (k + 1) 1,Nat.one_mul]
    omega

/-- Sooner or later a sweep begins after any moment. -/
theorem exists_sweepStart (time : ℕ) : ∃ k, time ≤ sweepStart duration started sweeps k := by
  refine ⟨time,?_⟩
  have reached : started + (time + 1) * interval duration ≤ sweepStart duration started sweeps time := deadline_le time
  have steps : time ≤ (time + 1) * interval duration := by
    calc time ≤ time + 1 := Nat.le_succ _
      _ ≤ (time + 1) * interval duration := Nat.le_mul_of_pos_right _ interval_pos
  omega

/-- The first sweep that begins after a moment begins soon after it. -/
theorem first_sweepStart {time longest k : ℕ} (running : started ≤ time) (longest_is : ∀ j, sweeps j ≤ longest)
    (before : ∀ j < k, sweepStart duration started sweeps j < time) :
    sweepStart duration started sweeps k ≤ time + max (interval duration) longest := by
  cases k with
  | zero =>
    rw [sweepStart_zero]
    have := le_max_left (interval duration) longest
    omega
  | succ k =>
    have gap : sweepStart duration started sweeps (k + 1) ≤ sweepStart duration started sweeps k + max (interval duration) (sweeps k) :=
      sweepStart_gap k
    have previous := before k (Nat.lt_succ_self k)
    have shorter : max (interval duration) (sweeps k) ≤ max (interval duration) longest :=
      max_le_max_left _ (longest_is k)
    omega

end Schedule

/-! ## One sweep, whatever runs beside it -/

section Sweep
variable {Tid : Type} [DecidableEq Tid] {config : Config}

/-- From the step in which the reaper turns to a sweep to the first state in
    which it is done with it. -/
structure WholeSweep (run : Transition.Stretch (router config Tid)) (reaper : Tid) : Prop where
  idle : (run.states 0).jobs reaper = .Idle
  begins : run.events 0 = .Act reaper .Reap
  some : 0 < run.length
  busy : ∀ i, 0 < i → i < run.length → (run.states i).jobs reaper ≠ .Idle
  ends : (run.states run.length).jobs reaper = .Idle

/-- The slot holds this child, used then, and nothing else has a reference. -/
def Quiet (state : State Tid) (id : String) (held : Loaded Child) : Prop :=
  state.shared.slots id = some held ∧ state.shared.strong held.child = 1

/-- The step at `i` is the reaper's, and it empties the slot. -/
def Takes (run : Transition.Stretch (router config Tid)) (reaper : Tid) (id : String) (i : ℕ) : Prop :=
  (∃ input, run.events i = .Act reaper input) ∧ (run.states i).shared.slots id ≠ none ∧
    (run.states (i + 1)).shared.slots id = none

/-- The sweep, which began at `since`, has the slot of `id` still before it. -/
def Job.comes (id : String) (lastUsed since : ℕ) : Job → Prop
  | .Sweeping .Exited _ _ | .Swept .Exited _ _ _ _ => True
  | .Expiring now rest seen => since ≤ now ∧ ((∃ entry ∈ rest, entry.id = id ∧ entry.residency = .OnDemand) ∨
      ∃ record ∈ seen, record.id = id ∧ record.residency = .OnDemand ∧ record.busy = false ∧ record.lastUsed = lastUsed)
  | .Sweeping (.Idle now) rest _ | .Swept (.Idle now) _ _ rest _ => since ≤ now ∧ id ∈ rest
  | _ => False

variable {input : Input} {s s' : Shared Tid} {job job' : Job} {t : Tid} {id : String} {held : Loaded Child}
  {window since : ℕ}

theorem clock_le {before after : State Tid} {event : Event Tid} (steps : before.step config event = some after) :
    before.shared.clock ≤ after.shared.clock := by
  rcases event with _ | ⟨child,status⟩ | ⟨t,input⟩
  · cases steps
    exact Nat.le_succ _
  · simp only [State.step] at steps
    split_ifs at steps
    cases steps
    exact le_rfl
  · rcases act_cases steps with ⟨_,advances⟩ | ⟨_,_,_,rfl⟩ | ⟨_,advanced,_,_,advances,rfl⟩
    · obtain ⟨job,ran,_⟩ := advance_cases advances
      exact (step_branch ran).clock.ge
    · exact le_rfl
    · obtain ⟨job,ran,_⟩ := advance_cases advances
      exact (step_branch ran).clock.ge

/-- A record that is on-demand, idle and a window old is among the expired. -/
theorem expired_of_mem {record : Admission.Loaded} {seen : List Admission.Loaded} {now : ℕ} (member : record ∈ seen)
    (onDemand : record.residency = .OnDemand) (idle : record.busy = false) (old : record.lastUsed + window ≤ now) :
    record.id ∈ expired (some window) seen now := by
  have late : stale now record.lastUsed window = true := decide_eq_true (by omega)
  refine List.mem_map_of_mem ((List.perm_insertionSort ..).symm.subset ?_)
  rw [List.mem_filter]
  exact ⟨member,by simp [onDemand,idle,late]⟩

omit [DecidableEq Tid] in
/-- A sweep for the idle reaches an old child before it has left it behind. -/
theorem sweeping_comes {now : ℕ} {rest : List String} {named : List (String × Option String)}
    (is : config.idleWindow.duration = some window) (old : held.lastUsed + window ≤ now)
    (there : s.slots id = some held) (alone : s.strong held.child = 1) (stays : s'.slots id = some held) (member : id ∈ rest)
    (after : since ≤ now) (ran : (Job.Sweeping (.Idle now) rest named).step config input s t = some (s',job')) :
    job'.comes id held.lastUsed since := by
  cases rest with
  | nil => cases member
  | cons other rest =>
    rw [Job.step,sweep] at ran
    by_cases this : id = other
    · -- The slot of the entry: the child is idle and old, so it is taken.
      subst this
      have stale : stale now held.lastUsed window = true := decide_eq_true (by omega)
      have taken : Sweep.take config s.strong s.check (.Idle now) (s.slots id) = (some (held,none),none) := by
        simp [Sweep.take,Slots.takeIfIdle,Slots.busy,there,alone,is,stale]
      rw [taken] at ran
      cases ran
      simp [Shared.put] at stays
    · have rest_member : id ∈ rest := (List.mem_cons.mp member).resolve_left this
      split at ran <;> (cases ran; exact ⟨after,rest_member⟩)

omit [DecidableEq Tid] in
/-- A sweep that still reads the slots has the entry before it, or has read it as
    on-demand, idle and used when it was. -/
theorem expiring_comes {now : ℕ} {rest : List Entry} {seen : List Admission.Loaded}
    (is : config.idleWindow.duration = some window) (old : held.lastUsed + window ≤ now)
    (there : s.slots id = some held) (alone : s.strong held.child = 1)
    (comes : (Job.Expiring now rest seen).comes id held.lastUsed since)
    (ran : (Job.Expiring now rest seen).step config input s t = some (s',job')) : job'.comes id held.lastUsed since := by
  obtain ⟨after,found⟩ := comes
  cases rest with
  | nil =>
    cases ran
    rcases found with ⟨entry,inside,_⟩ | ⟨record,member,rfl,onDemand,idle,used⟩
    · cases inside
    · rw [is]
      exact ⟨after,expired_of_mem member onDemand idle (by omega)⟩
  | cons entry rest =>
    cases ran
    refine ⟨after,?_⟩
    rcases found with ⟨other,inside,own,onDemand⟩ | ⟨record,member,own⟩
    · rcases List.mem_cons.mp inside with rfl | inside
      · right
        refine ⟨Admission.Loaded.of other (Slots.busy s.strong held.child) held.lastUsed held.measured,?_,own,onDemand,?_,rfl⟩
        · refine List.mem_append_right _ ?_
          rw [Shared.seen,own,there]
          exact List.mem_singleton_self _
        · simp [Admission.Loaded.of,Slots.busy,alone]
      · exact .inl ⟨other,inside,own,onDemand⟩
    · exact .inr ⟨record,List.mem_append_left _ member,own⟩

omit [DecidableEq Tid] in
/-- A step of the reaper that leaves the slot as it is leaves it still to come. -/
theorem comes_step (known : ∃ entry ∈ config.catalog.entries, entry.id = id ∧ entry.residency = .OnDemand)
    (is : config.idleWindow.duration = some window) (old : held.lastUsed + window ≤ since) (late : since ≤ s.clock)
    (there : s.slots id = some held) (alone : s.strong held.child = 1) (stays : s'.slots id = some held)
    (comes : job.comes id held.lastUsed since) (ran : job.step config input s t = some (s',job')) :
    job'.comes id held.lastUsed since := by
  cases job with
  | Sweeping kind rest named =>
    cases kind with
    | Exited =>
      cases rest with
      | nil =>
        cases ran
        exact ⟨late,.inl known⟩
      | cons other rest =>
        rw [Job.step,sweep] at ran
        split at ran <;> (cases ran; trivial)
    | Idle now => exact sweeping_comes is (old.trans comes.1) there alone stays comes.2 comes.1 ran
  | Swept kind child said rest named =>
    cases ran
    cases kind with
    | Exited => trivial
    | Idle now => exact comes
  | Expiring now rest seen => exact expiring_comes is (old.trans comes.1) there alone comes ran
  | _ => exact comes.elim

/-- The step in which the reaper turns to a sweep. -/
theorem comes_first {before after : State Tid} {reaper : Tid} {lastUsed : ℕ} (idle : before.jobs reaper = .Idle)
    (steps : before.step config (.Act reaper .Reap) = some after) : (after.jobs reaper).comes id lastUsed since := by
  have begins : ∃ job, (before.jobs reaper).step config .Reap before.shared reaper = some (after.shared,job) ∧
      after.jobs = Function.update before.jobs reaper job := by
    rcases act_cases steps with ⟨_,advances⟩ | ⟨other,needs,_⟩ | ⟨other,_,needs,_⟩
    · obtain ⟨job,ran,jobs,_⟩ := advance_cases advances
      exact ⟨job,ran,jobs⟩
    · rw [idle] at needs; cases needs
    · rw [idle] at needs; cases needs
  obtain ⟨job,ran,jobs⟩ := begins
  rw [idle,Job.step,begin] at ran
  split_ifs at ran
  obtain ⟨_,rfl⟩ := Prod.mk.inj (Option.some.inj ran)
  rw [jobs,Function.update_self]
  trivial

/-- Any step of the router, the slot staying as it is. -/
theorem comes_next {before after : State Tid} {event : Event Tid} {reaper : Tid}
    (known : ∃ entry ∈ config.catalog.entries, entry.id = id ∧ entry.residency = .OnDemand)
    (is : config.idleWindow.duration = some window) (old : held.lastUsed + window ≤ since) (late : since ≤ before.shared.clock)
    (quiet : Quiet before id held) (stays : Quiet after id held)
    (comes : (before.jobs reaper).comes id held.lastUsed since) (steps : before.step config event = some after) :
    (after.jobs reaper).comes id held.lastUsed since := by
  rcases step_cases steps with ⟨_,_,jobs⟩ | ⟨_,_,_,jobs,_⟩ | ⟨t,input,job,_,ran,jobs⟩
  · rw [jobs]
    exact comes
  · rw [jobs]
    exact comes
  · rw [jobs]
    by_cases this : reaper = t
    · subst this
      rw [Function.update_self]
      exact comes_step known is old late quiet.1 quiet.2 stays.1 comes ran
    · rw [Function.update_of_ne this]
      exact comes

/-- A sweep that begins when the use of a quiet on-demand child is a window old
    takes it, if nothing else does. -/
theorem sweep_takes {run : Transition.Stretch (router config Tid)} {reaper : Tid} (whole : WholeSweep run reaper)
    (known : ∃ entry ∈ config.catalog.entries, entry.id = id ∧ entry.residency = .OnDemand)
    (is : config.idleWindow.duration = some window) (old : held.lastUsed + window ≤ (run.states 0).shared.clock)
    (first : Quiet (run.states 0) id held)
    (stays : ∀ i < run.length, Quiet (run.states i) id held →
      Quiet (run.states (i + 1)) id held ∨ Takes run reaper id i) :
    ∃ i < run.length, Takes run reaper id i := by
  by_contra none
  push Not at none
  have quiet : ∀ i ≤ run.length, Quiet (run.states i) id held :=
    run.invariant first fun i less quiet => (stays i less quiet).resolve_right (none i less)
  have late : ∀ i ≤ run.length, (run.states 0).shared.clock ≤ (run.states i).shared.clock :=
    run.invariant (P := fun i => (run.states 0).shared.clock ≤ (run.states i).shared.clock) le_rfl
      fun i less late => late.trans (clock_le (run.steps i less))
  have comes : ∀ i ≤ run.length, 0 < i → ((run.states i).jobs reaper).comes id held.lastUsed (run.states 0).shared.clock := by
    refine run.invariant (P := fun i => 0 < i → ((run.states i).jobs reaper).comes id held.lastUsed (run.states 0).shared.clock)
      (fun absurdly => absurd absurdly (Nat.lt_irrefl 0)) fun i less before _ => ?_
    have steps := run.steps i less
    rcases Nat.eq_zero_or_pos i with rfl | later
    · rw [whole.begins] at steps
      exact comes_first whole.idle steps
    · exact comes_next known is old (late i (Nat.le_of_lt less)) (quiet i (Nat.le_of_lt less)) (quiet (i + 1) less)
        (before later) steps
  have last := comes run.length le_rfl whole.some
  rw [whole.ends] at last
  exact last

/-- Sweeps in a row begin at most an interval, or the first one's length, apart,
    whatever came before. An on-demand child that is quiet from `time` on is
    taken at the latest by the first sweep that begins a window after it, and
    that one begins soon after. -/
theorem reaper_keeps_time (is : config.idleWindow.duration = some window) (started : ℕ) (sweeps : ℕ → ℕ) :
    (∀ k, sweepStart window started sweeps (k + 1) ≤
      sweepStart window started sweeps k + max (interval window) (sweeps k)) ∧
    ∀ time longest, started ≤ time + window → (∀ k, sweeps k ≤ longest) →
      (∃ k, time + window ≤ sweepStart window started sweeps k) ∧
      ∀ k, time + window ≤ sweepStart window started sweeps k → (∀ j < k, sweepStart window started sweeps j < time + window) →
        sweepStart window started sweeps k ≤ time + window + max (interval window) longest ∧
        (200000000 ≤ window → 2 * longest ≤ window → 2 * sweepStart window started sweeps k ≤ 2 * time + 3 * window) ∧
        ∀ (reaper : Tid) (run : Transition.Stretch (router config Tid)) (id : String) (held : Loaded Child), WholeSweep run reaper →
          (run.states 0).shared.clock = sweepStart window started sweeps k →
          (run.states run.length).shared.clock = sweepStart window started sweeps k + sweeps k →
          (∃ entry ∈ config.catalog.entries, entry.id = id ∧ entry.residency = .OnDemand) → held.lastUsed ≤ time →
          Quiet (run.states 0) id held →
          (∀ i < run.length, Quiet (run.states i) id held → Quiet (run.states (i + 1)) id held ∨ Takes run reaper id i) →
            ∃ i < run.length, Takes run reaper id i := by
  refine ⟨sweepStart_gap,fun time longest running longest_is => ⟨exists_sweepStart _,fun k reached before => ?_⟩⟩
  have soon : sweepStart window started sweeps k ≤ time + window + max (interval window) longest :=
    first_sweepStart running longest_is before
  refine ⟨soon,fun wide short => ?_,?_⟩
  · have half : 2 * interval window ≤ window := by
      rw [interval,MIN_INTERVAL]
      omega
    have both : 2 * max (interval window) longest ≤ window := by omega
    omega
  · intro reaper run id held whole begins _ known used first stays
    exact sweep_takes whole known is (by rw [begins]; omega) first stays

end Sweep

/-- The reaper of one model turns to its first sweep, a tenth of a second after
    it started, the model quiet since then. -/
def quietModel : State Unit where
  shared := { (State.start Unit).shared with
    slots := fun id => if id = "m" then some ⟨⟨0,"m"⟩,0,⟨some 8,none⟩⟩ else none
    strong := fun child => if child = ⟨0,"m"⟩ then 1 else 0
    life := fun child => if child = ⟨0,"m"⟩ then .Running else .Unborn
    next := 1
    clock := 100000000 }
  jobs := fun _ => .Idle
  guards := fun _ => none

/-- The steps of that sweep. -/
def firstSweep : List (Event Unit) := (.Reap :: List.replicate 10 .Go).map (.Act ())

def Job.isIdle : Job → Bool
  | .Idle => true
  | _ => false

theorem isIdle_spec {job : Job} (idle : job.isIdle = true) : job = .Idle := by
  cases job <;> first | rfl | cases idle

def firstSweepRun : Transition.Stretch (router oneModel Unit) :=
  .ofRun (router oneModel Unit) quietModel firstSweep .Tick (by decide +kernel)

/-- In each state of that sweep the reaper is at it, and the model is as it was
    until a step takes it. -/
theorem firstSweep_quiet : (∀ i < 11, 0 < i → ((firstSweepRun.states i).jobs ()).isIdle = false) ∧
    ∀ i < 11, ((firstSweepRun.states (i + 1)).shared.slots "m" = some ⟨⟨0,"m"⟩,0,⟨some 8,none⟩⟩ ∧
        (firstSweepRun.states (i + 1)).shared.strong ⟨0,"m"⟩ = 1) ∨
      (firstSweepRun.states i).shared.slots "m" = none ∨ (firstSweepRun.states (i + 1)).shared.slots "m" = none := by
  decide +kernel

theorem quiet_model_taken : sweepStart 1 0 (fun _ => 0) 0 = 100000000 ∧
    ∃ i < firstSweepRun.length, Takes firstSweepRun () "m" i := by
  have start : sweepStart 1 0 (fun _ => 0) 0 = 100000000 := by decide
  refine ⟨start,?_⟩
  have whole : WholeSweep firstSweepRun () := by
    refine ⟨rfl,rfl,by decide,fun i later less idle => ?_,isIdle_spec (by decide +kernel)⟩
    have busy := firstSweep_quiet.1 i less later
    rw [idle] at busy
    cases busy
  have acts : ∀ i < 11, ∃ input, firstSweepRun.events i = .Act () input := by
    intro i less
    have listed : firstSweepRun.events i ∈ firstSweep := by
      have there : firstSweep[i]? = some firstSweep[i] := List.getElem?_eq_getElem less
      change firstSweep[i]?.getD .Tick ∈ firstSweep
      rw [there]
      exact List.getElem_mem less
    obtain ⟨input,_,is⟩ := List.mem_map.mp listed
    exact ⟨input,is.symm⟩
  have times := (@reaper_keeps_time Unit _ oneModel 1 rfl 0 fun _ => 0).2 0 0 (by decide) (by simp)
  refine (times.2 0 (by rw [start]; decide) (by simp)).2.2 () firstSweepRun "m" ⟨⟨0,"m"⟩,0,⟨some 8,none⟩⟩ whole ?_ ?_ ?_
    (le_refl 0) ⟨by decide +kernel,by decide +kernel⟩ fun i less quiet => ?_
  · rw [start]; decide +kernel
  · rw [start]; decide +kernel
  · exact ⟨model,List.mem_singleton_self _,rfl,rfl⟩
  · rcases firstSweep_quiet.2 i less with stays | gone | taken
    · exact .inl stays
    · rw [quiet.1] at gone
      cases gone
    · refine .inr ⟨acts i less,?_,taken⟩
      rw [quiet.1]
      exact Option.some_ne_none _

end Maestro.Threads
