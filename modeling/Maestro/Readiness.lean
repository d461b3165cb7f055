import Maestro.Launch
import Maestro.Loaded
import Maestro.Polling

/-!
# How long a start takes

An attempt and a start against the clock, in nanoseconds. What each round of an
attempt finds, and what it and its sleep take, is told for the round. What the
rounds come to is what an attempt was taken to be answered with.
-/
namespace Maestro.Launch
open Polling (Lap Ending Ends asked begins poll)
open Slots (Liveness)

/-- How often readiness is asked for while a model loads. -/
def POLL_INTERVAL : ℕ := 100000000

/-- What one round finds: whether the child is still there and, if it is, the
    status in the reply to the probe. -/
structure Round where
  check : Liveness
  health : Option ℕ

/-- What the machine answers one attempt with, round by round, and what the
    spawn takes. -/
structure Trial (C : Type) where
  port : Except String ℕ
  process : Except String C
  spawning : ℕ
  rounds : ℕ → Round
  laps : ℕ → Lap

section
variable {C : Type}

/-- One round, up to the look at the clock; the state is whether a probe has
    ever connected. -/
def ask (child : C) (rounds : ℕ → Round) (k : ℕ) (everConnected : Bool) : Except Unit (Loading C) × Bool :=
  match (rounds k).check with
  | .Exited status => (.ok (.Exited status everConnected), everConnected)
  | .Running => match (rounds k).health with
    | some 200 => (.ok (.Ready child), everConnected)
    | some _ => (.error (), true)
    | none => (.error (), everConnected)

/-- An entry's startup budget in nanoseconds. -/
def startupBudget (entry : Entry) : ℕ := entry.startupTimeoutSeconds * 1000000000

variable (machine : Machine) (server : Server) (entry : Entry) (root : String)

/-- The loop of an attempt, begun once its process was spawned. -/
def loadFrom (trial : Trial C) (child : C) (fuel began : ℕ) : Option (Ending Bool (Loading C) Unit) :=
  poll POLL_INTERVAL (began + startupBudget entry) trial.laps (ask child trial.rounds) fuel 0 began false

/-- What became of the child. -/
def fate (ending : Ending Bool (Loading C) Unit) : Loading C :=
  match ending.found with
  | .ok loading => loading
  | .error () => .TimedOut

/-- One spawn, polled until it answers, dies or exhausts its budget: what it
    comes to and when. -/
def attemptFrom (fuel start : ℕ) (trial : Trial C) : Option (Except (Failure × Bool) C × ℕ) :=
  let began := start + trial.spawning
  match trial.process, spawn machine server entry root ⟨trial.port,trial.process.map .Ready⟩ with
  | .ok child, .ok _ => (loadFrom entry trial child fuel began).map fun ending =>
    (attempt machine server entry root ⟨trial.port,.ok (fate ending)⟩, ending.ended)
  -- Nothing was spawned, so nothing is polled.
  | _, _ => some (attempt machine server entry root ⟨trial.port,trial.process.map .Ready⟩, began)

/-- Starts one entry, once more when the first child lost the race for its
    port: what it comes to and when. -/
def startFrom (fuel start : ℕ) (first second : Trial C) : Option (Except Failure C × ℕ) :=
  match attemptFrom machine server entry root fuel start first with
  | none => none
  | some (.error (_, true), now) =>
    (attemptFrom machine server entry root fuel now second).map fun (result, now) => (result.mapError Prod.fst, now)
  | some (.error (failure, false), now) => some (.error failure, now)
  | some (.ok child, now) => some (.ok child, now)

variable {machine server entry root} {trial : Trial C} {child : C} {began : ℕ} {ending : Ending Bool (Loading C) Unit}

theorem poll_interval_pos : 0 < POLL_INTERVAL := by decide

/-! ## What a round comes to -/

theorem ask_exited {rounds : ℕ → Round} {k : ℕ} {status : String} (exited : (rounds k).check = .Exited status) (everConnected : Bool) :
    ask child rounds k everConnected = (.ok (.Exited status everConnected),everConnected) := by
  rw [ask,exited]

theorem ask_ready {rounds : ℕ → Round} {k : ℕ} (running : (rounds k).check = .Running) (well : (rounds k).health = some 200)
    (everConnected : Bool) : ask child rounds k everConnected = (.ok (.Ready child),everConnected) := by
  rw [ask,running]
  simp only [well]

theorem ask_waits {rounds : ℕ → Round} {k : ℕ} (running : (rounds k).check = .Running) (ill : (rounds k).health ≠ some 200)
    (everConnected : Bool) :
    ask child rounds k everConnected = (.error (),everConnected || (rounds k).health.isSome) := by
  rw [ask,running]
  cases answered : (rounds k).health with
  | none => simp
  | some status =>
    rw [answered] at ill
    by_cases this : status = 200
    · exact absurd (congrArg some this) ill
    · simp

/-- The child is still loading in this round. -/
def Round.Loads (self : Round) : Prop := self.check = .Running ∧ self.health ≠ some 200

theorem ask_error {rounds : ℕ → Round} {k : ℕ} {everConnected : Bool} :
    (∃ report, (ask child rounds k everConnected).1 = .error report) ↔ (rounds k).Loads := by
  cases check : (rounds k).check with
  | Exited status => simp [ask_exited check,Round.Loads,check]
  | Running =>
    by_cases well : (rounds k).health = some 200
    · simp [ask_ready check well,Round.Loads,well]
    · simp [ask_waits check well,Round.Loads,check,well]

/-- A probe was answered with a status before this round. -/
def Answered (rounds : ℕ → Round) (k : ℕ) : Prop := ∃ j < k, (rounds j).health ≠ none

theorem reached_answered {rounds : ℕ → Round} (k : ℕ) (loads : ∀ j < k, (rounds j).Loads) :
    Polling.reached (ask child rounds) false k = true ↔ Answered rounds k := by
  induction k with
  | zero => simp [Polling.reached,Answered]
  | succ k ih =>
    obtain ⟨running,ill⟩ := loads k (Nat.lt_succ_self k)
    have before := ih fun j lower => loads j (Nat.lt_succ_of_lt lower)
    have splits : Answered rounds (k + 1) ↔ Answered rounds k ∨ (rounds k).health ≠ none := by
      constructor
      · rintro ⟨j,lower,status⟩
        rcases Nat.lt_succ_iff_lt_or_eq.mp lower with lower | rfl
        · exact .inl ⟨j,lower,status⟩
        · exact .inr status
      · rintro (⟨j,lower,status⟩ | status)
        · exact ⟨j,Nat.lt_succ_of_lt lower,status⟩
        · exact ⟨k,Nat.lt_succ_self k,status⟩
    rw [Polling.reached,ask_waits running ill,splits,← before,Bool.or_eq_true,Option.isSome_iff_ne_none]

/-! ## Where an attempt ends -/

/-- The machine shows nothing against the start and answers it with a port and
    a process. -/
structure Spawns (machine : Machine) (entry : Entry) (root : String) (trial : Trial C) (child : C) : Prop where
  model : ¬ NoModel machine entry root
  runtime : ¬ NoRuntime machine entry
  port : ∃ port, trial.port = .ok port
  process : trial.process = .ok child

/-- Every round before this one found the child loading, within its budget. -/
def Passed (entry : Entry) (trial : Trial C) (began k : ℕ) : Prop :=
  ∀ j < k, (trial.rounds j).Loads ∧ asked POLL_INTERVAL trial.laps began j < began + startupBudget entry

theorem binaryFor_somewhere (server : Server) (present : ¬ NoRuntime machine entry) : ∃ binary, binaryFor machine server entry = .ok binary := by
  cases named : entry.runtime with
  | none => exact ⟨server.binary,by rw [binaryFor,named]⟩
  | some runtime =>
    cases found : machine.runtimeBinary runtime with
    | none => exact absurd ⟨runtime,named,found⟩ present
    | some binary => exact ⟨binary,by simp only [binaryFor,named,found]⟩

theorem Spawns.spawn (spawns : Spawns machine entry root trial child) (loading : Loading C) :
    spawn machine server entry root ⟨trial.port,.ok loading⟩ = .ok loading := by
  obtain ⟨model,runtime,⟨port,is⟩,_⟩ := spawns
  obtain ⟨binary,found⟩ := binaryFor_somewhere server runtime
  rw [Launch.spawn,modelFile_of_present model,is,found]
  rfl

theorem spawn_error {answer : Attempt C} {failure : Failure} (refused : spawn machine server entry root answer = .error failure) :
    ∃ message, failure = .Unavailable message := by
  rw [spawn] at refused
  by_cases missing : NoModel machine entry root
  · rw [modelFile,missing] at refused
    cases refused
    exact ⟨_,rfl⟩
  · rw [modelFile_of_present missing] at refused
    cases port : answer.port with
    | error error =>
      rw [port] at refused
      cases refused
      exact ⟨_,rfl⟩
    | ok port' =>
      rw [port] at refused
      cases named : entry.runtime with
      | none =>
        rw [binaryFor,named] at refused
        cases process : answer.process <;> rw [process] at refused <;> cases refused
        exact ⟨_,rfl⟩
      | some runtime =>
        cases found : machine.runtimeBinary runtime with
        | none =>
          simp only [binaryFor,named,found] at refused
          cases refused
          exact ⟨_,rfl⟩
        | some binary =>
          simp only [binaryFor,named,found] at refused
          cases process : answer.process <;> rw [process] at refused <;> cases refused
          exact ⟨_,rfl⟩

theorem spawns_of_spawn {loading : Loading C}
    (spawned : spawn machine server entry root ⟨trial.port,trial.process.map .Ready⟩ = .ok loading) :
    ∃ child, Spawns machine entry root trial child := by
  have possible : ¬ Impossible machine entry root := by
    intro impossible
    obtain ⟨failure,refused⟩ := spawn_impossible impossible ⟨trial.port,trial.process.map .Ready⟩
    rw [spawned] at refused
    cases refused
  obtain ⟨model,runtime⟩ := not_or.mp possible
  obtain ⟨binary,found⟩ := binaryFor_somewhere server runtime
  rw [spawn,modelFile_of_present model,found] at spawned
  cases port : trial.port with
  | error error =>
    rw [port] at spawned
    cases spawned
  | ok number =>
    cases process : trial.process with
    | error error =>
      rw [port,process] at spawned
      cases spawned
    | ok child => exact ⟨child,model,runtime,⟨number,port⟩,process⟩

/-- Why nothing is spawned does not depend on what would have become of it. -/
theorem spawn_refused {port : Except String ℕ} {process : Except String C} {f : C → Loading C} {failure : Failure}
    (refused : spawn machine server entry root ⟨port,process.map f⟩ = .error failure) (g : C → Loading C) :
    spawn machine server entry root ⟨port,process.map g⟩ = .error failure := by
  rw [spawn] at refused ⊢
  cases found : modelFile machine entry root with
  | error failure =>
    rw [found] at refused
    exact refused
  | ok model =>
    rw [found] at refused
    cases port with
    | error error => exact refused
    | ok port =>
      cases binary : binaryFor machine server entry with
      | error failure =>
        rw [binary] at refused
        exact refused
      | ok binary' =>
        rw [binary] at refused
        cases process with
        | error error => exact refused
        | ok child => cases refused

/-- Where nothing is spawned the attempt is over at once, and is not made
    again. -/
theorem attemptFrom_unspawned {failure : Failure}
    (refused : spawn machine server entry root ⟨trial.port,trial.process.map .Ready⟩ = .error failure) (fuel start : ℕ) :
    attemptFrom machine server entry root fuel start trial = some (.error (failure,false),start + trial.spawning) := by
  cases process : trial.process <;> rw [process] at refused <;> simp only [attemptFrom,attempt,process,refused]

theorem loadFrom_ends (entry : Entry) (trial : Trial C) (child : C) (began : ℕ) : ∃ ending,
    (∀ fuel, startupBudget entry / POLL_INTERVAL + 2 ≤ fuel → loadFrom entry trial child fuel began = some ending) ∧
      Ends POLL_INTERVAL (began + startupBudget entry) trial.laps (ask child trial.rounds) began false ending := by
  refine ⟨_,fun fuel enough => ?_,Polling.settle_ends poll_interval_pos⟩
  refine Polling.poll_eq_settle poll_interval_pos ?_
  rwa [Polling.rounds,Nat.add_sub_cancel_left]

theorem passed_of_ends (ends : Ends POLL_INTERVAL (began + startupBudget entry) trial.laps (ask child trial.rounds) began false ending) :
    Passed entry trial began ending.round := by
  intro j lower
  obtain ⟨unanswered,early⟩ := ends.earlier j lower
  exact ⟨ask_error.mp unanswered,early⟩

/-- What the loop ends with is what its last round finds. -/
theorem found_cases (ends : Ends POLL_INTERVAL (began + startupBudget entry) trial.laps (ask child trial.rounds) began false ending) :
    ((trial.rounds ending.round).check = .Running ∧ (trial.rounds ending.round).health = some 200 ∧
      ending.found = .ok (.Ready child)) ∨
    (∃ status connected, (trial.rounds ending.round).check = .Exited status ∧
      (connected = true ↔ Answered trial.rounds ending.round) ∧ ending.found = .ok (.Exited status connected)) ∨
    ((trial.rounds ending.round).Loads ∧ began + startupBudget entry ≤ ending.ended ∧ ending.found = .error ()) := by
  have passed := passed_of_ends ends
  rw [ends.found,Polling.finds]
  cases check : (trial.rounds ending.round).check with
  | Exited status =>
    rw [ask_exited check]
    exact .inr (.inl ⟨status,_,rfl,reached_answered _ fun j lower => (passed j lower).1,rfl⟩)
  | Running =>
    by_cases well : (trial.rounds ending.round).health = some 200
    · rw [ask_ready check well]
      exact .inl ⟨rfl,well,rfl⟩
    · obtain ⟨report,unanswered⟩ : ∃ report, Polling.finds (ask child trial.rounds) false ending.round = .error report :=
        ask_error.mpr ⟨check,well⟩
      have late : began + startupBudget entry ≤ ending.ended := ends.gave_up (ends.found.trans unanswered)
      exact .inr (.inr ⟨⟨check,well⟩,late,unanswered⟩)

/-- An attempt that spawned its process ends in the first round that finds it
    answering with 200, exited, or over its budget: it hands the child out in the
    first case, reports the exit in the second, for another attempt if no probe
    was answered before, and in the third that the child is not ready. -/
theorem attempt_exact (spawns : Spawns machine entry root trial child) {fuel : ℕ}
    (enough : startupBudget entry / POLL_INTERVAL + 2 ≤ fuel) (start : ℕ) : ∃ k result,
    attemptFrom machine server entry root fuel start trial =
      some (result,asked POLL_INTERVAL trial.laps (start + trial.spawning) k) ∧
    Passed entry trial (start + trial.spawning) k ∧
    (((trial.rounds k).check = .Running ∧ (trial.rounds k).health = some 200 ∧ result = .ok child) ∨
      (∃ status lost, (trial.rounds k).check = .Exited status ∧ (lost = true ↔ ¬ Answered trial.rounds k) ∧
        result = .error (.Unavailable s!"entry '{entry.id}': the server exited while loading ({status})",lost)) ∨
      ((trial.rounds k).Loads ∧
        start + trial.spawning + startupBudget entry ≤ asked POLL_INTERVAL trial.laps (start + trial.spawning) k ∧
        result = .error (.NotReady (s!"entry '{entry.id}': not ready within its startup budget of " ++
          s!"{entry.startupTimeoutSeconds} seconds"),false))) := by
  obtain ⟨ending,runs,ends⟩ := loadFrom_ends entry trial child (start + trial.spawning)
  have came : attemptFrom machine server entry root fuel start trial =
      some (attempt machine server entry root ⟨trial.port,.ok (fate ending)⟩,ending.ended) := by
    simp only [attemptFrom,spawns.process,Except.map,spawns.spawn,runs fuel enough,Option.map_some]
  refine ⟨ending.round,_,by rw [came,ends.ended],passed_of_ends ends,?_⟩
  rw [attempt,spawns.spawn]
  rcases found_cases ends with ⟨running,well,found⟩ | ⟨status,connected,exited,before,found⟩ | ⟨loads,late,found⟩
  · refine .inl ⟨running,well,?_⟩
    rw [fate,found]
  · refine .inr (.inl ⟨status,!connected,exited,?_,?_⟩)
    · rw [← before,Bool.not_eq_true',Bool.not_eq_true]
    · rw [fate,found]
  · refine .inr (.inr ⟨loads,?_,?_⟩)
    · rwa [← ends.ended]
    · rw [fate,found]

/-! ## How long it takes -/

/-- What the rounds of a trial answer an attempt with. -/
def Trial.answer (entry : Entry) (trial : Trial C) (began : ℕ) : Attempt C :=
  ⟨trial.port,trial.process.map fun child => fate (Polling.settle POLL_INTERVAL (began + startupBudget entry) trial.laps
    (ask child trial.rounds) poll_interval_pos began false)⟩

/-- What a trial takes at most, for the spawn and for every round. -/
structure Trial.Within (trial : Trial C) (spawning work late : ℕ) : Prop where
  spawning : trial.spawning ≤ spawning
  work : ∀ k, (trial.laps k).work ≤ work
  late : ∀ k, (trial.laps k).late ≤ late

theorem attempt_unspawned {answer : Attempt C} {failure : Failure} (refused : spawn machine server entry root answer = .error failure) :
    attempt machine server entry root answer = .error (failure,false) := by rw [attempt,refused]

theorem attempt_not_ready {answer : Attempt C} {message : String} {lost : Bool}
    (late : attempt machine server entry root answer = .error (.NotReady message,lost)) :
    spawn machine server entry root answer = .ok .TimedOut := by
  rw [attempt] at late
  cases spawned : spawn machine server entry root answer with
  | error failure =>
    rw [spawned] at late
    obtain ⟨message,rfl⟩ := spawn_error spawned
    cases late
  | ok loading =>
    rw [spawned] at late
    cases loading with
    | TimedOut => rfl
    | Ready child => cases late
    | Exited status connected => cases late

/-- An attempt ends as it does on what its rounds answer it with, after its
    budget if it finds its child not ready, and soon after it at most. -/
theorem attempt_ends (machine : Machine) (server : Server) (entry : Entry) (root : String) (trial : Trial C) (start : ℕ) :
    ∃ now, (∀ fuel, startupBudget entry / POLL_INTERVAL + 2 ≤ fuel → attemptFrom machine server entry root fuel start trial =
        some (attempt machine server entry root (trial.answer entry (start + trial.spawning)),now)) ∧
      start ≤ now ∧
      (∀ message lost, attempt machine server entry root (trial.answer entry (start + trial.spawning)) =
        .error (.NotReady message,lost) → start + startupBudget entry ≤ now) ∧
      ∀ spawning work late, trial.Within spawning work late →
        now ≤ start + (spawning + startupBudget entry + POLL_INTERVAL + late + work) := by
  cases spawned : spawn machine server entry root ⟨trial.port,trial.process.map .Ready⟩ with
  | error failure =>
    have refused : spawn machine server entry root (trial.answer entry (start + trial.spawning)) = .error failure :=
      spawn_refused spawned _
    have refuses := attempt_unspawned refused
    rw [refuses]
    refine ⟨start + trial.spawning,fun fuel _ => attemptFrom_unspawned spawned fuel start,by omega,fun message lost late => ?_,
      fun spawning work late within => ?_⟩
    · rw [← refuses] at late
      have timed := attempt_not_ready late
      rw [refused] at timed
      cases timed
    · have := within.spawning
      omega
  | ok loading =>
    obtain ⟨child,spawns⟩ := spawns_of_spawn spawned
    obtain ⟨ending,runs,ends⟩ := loadFrom_ends entry trial child (start + trial.spawning)
    have settled := ends.unique (Polling.settle_ends poll_interval_pos)
    have answer : trial.answer entry (start + trial.spawning) = ⟨trial.port,.ok (fate ending)⟩ := by
      rw [Trial.answer,spawns.process,settled]
      rfl
    have since : start + trial.spawning ≤ ending.ended := ends.since
    refine ⟨ending.ended,fun fuel enough => ?_,by omega,fun message lost late => ?_,fun spawning work late within => ?_⟩
    · rw [answer]
      simp only [attemptFrom,spawns.process,Except.map,spawns.spawn,runs fuel enough,Option.map_some]
    · have timed := attempt_not_ready late
      rw [answer,spawns.spawn] at timed
      rcases found_cases ends with ⟨_,_,found⟩ | ⟨_,_,_,_,found⟩ | ⟨_,late,_⟩
      · rw [fate,found] at timed
        cases timed
      · rw [fate,found] at timed
        cases timed
      · omega
    · have soon := ends.soon within.work within.late
      have first := within.spawning
      rw [max_eq_right (by omega)] at soon
      omega

theorem attempt_failure {answer : Attempt C} {failure : Failure} {lost : Bool}
    (failed : attempt machine server entry root answer = .error (failure,lost)) :
    (∃ message, failure = .Unavailable message) ∨ ∃ message, failure = .NotReady message := by
  rw [attempt] at failed
  cases spawned : spawn machine server entry root answer with
  | error failure' =>
    rw [spawned] at failed
    cases failed
    exact .inl (spawn_error spawned)
  | ok loading =>
    rw [spawned] at failed
    cases loading <;> cases failed
    · exact .inl ⟨_,rfl⟩
    · exact .inr ⟨_,rfl⟩

/-- A start fails for want of a child or of time, and never for want of room. -/
theorem start_failure {first second : Attempt C} {failure : Failure}
    (failed : Launch.start machine server entry root first second = .error failure) :
    (∃ message, failure = .Unavailable message) ∨ ∃ message, failure = .NotReady message := by
  rw [Launch.start] at failed
  cases one : attempt machine server entry root first with
  | ok child =>
    rw [one] at failed
    cases failed
  | error refused =>
    obtain ⟨other,lost⟩ := refused
    rw [one] at failed
    cases lost with
    | false =>
      cases failed
      exact attempt_failure one
    | true =>
      cases two : attempt machine server entry root second with
      | ok child =>
        rw [two] at failed
        cases failed
      | error refused =>
        rw [two] at failed
        cases failed
        exact attempt_failure two

/-- A start ends, with what the rounds of its attempts answer them with. It
    reports a child that is not ready only once a whole startup budget has
    passed, and it takes two of them at most, with a spawn, a poll interval and a
    round each. -/
theorem start_ends (machine : Machine) (server : Server) (entry : Entry) (root : String) (first second : Trial C) (start : ℕ) :
    ∃ again result now, (∀ fuel, startupBudget entry / POLL_INTERVAL + 2 ≤ fuel →
        startFrom machine server entry root fuel start first second = some (result,now)) ∧
      result = Launch.start machine server entry root (first.answer entry (start + first.spawning))
        (second.answer entry (again + second.spawning)) ∧
      (∀ message, result = .error (.NotReady message) → start + startupBudget entry ≤ now) ∧
      ∀ spawning work late, first.Within spawning work late → second.Within spawning work late →
        now ≤ start + 2 * (spawning + startupBudget entry + POLL_INTERVAL + late + work) := by
  obtain ⟨again,one,_,unready,soon⟩ := attempt_ends machine server entry root first start
  obtain ⟨now,two,after,unready',soon'⟩ := attempt_ends machine server entry root second again
  cases came : attempt machine server entry root (first.answer entry (start + first.spawning)) with
  | ok child =>
    refine ⟨again,.ok child,again,fun fuel enough => ?_,by rw [Launch.start,came],nofun,fun spawning work late within _ => ?_⟩
    · rw [startFrom,one fuel enough,came]
    · have := soon spawning work late within
      omega
  | error refused =>
    obtain ⟨failure,lost⟩ := refused
    cases lost with
    | false =>
      refine ⟨again,.error failure,again,fun fuel enough => ?_,by rw [Launch.start,came],fun message is => ?_,
        fun spawning work late within _ => ?_⟩
      · rw [startFrom,one fuel enough,came]
      · cases is
        exact unready message false came
      · have := soon spawning work late within
        omega
    | true =>
      refine ⟨again,_,now,fun fuel enough => ?_,by rw [Launch.start,came],fun message is => ?_,fun spawning work late within within' => ?_⟩
      · rw [startFrom,one fuel enough,came]
        dsimp only
        rw [two fuel enough]
        rfl
      · cases came' : attempt machine server entry root (second.answer entry (again + second.spawning)) with
        | ok child =>
          rw [came'] at is
          cases is
        | error refused =>
          obtain ⟨failure,lost⟩ := refused
          rw [came'] at is
          cases is
          have := unready' message lost came'
          omega
      · have := soon spawning work late within
        have := soon' spawning work late within'
        omega

/-- A child that stays and answers with 200 from some moment on is handed out
    within a poll interval of it, if there is time for one more round in the
    entry's startup budget. -/
theorem ready_soon {first : Trial C} {spawning work late since : ℕ} (server : Server) (second : Trial C) (start : ℕ)
    (spawns : Spawns machine entry root first child)
    (within : first.Within spawning work late) (early : since + work ≤ start + first.spawning + startupBudget entry)
    (stays : ∀ k, (first.rounds k).check = .Running)
    (well : ∀ k, since ≤ begins POLL_INTERVAL first.laps (start + first.spawning) k → (first.rounds k).health = some 200) :
    ∃ now, (∀ fuel, startupBudget entry / POLL_INTERVAL + 2 ≤ fuel →
        startFrom machine server entry root fuel start first second = some (.ok child,now)) ∧
      now ≤ max (start + first.spawning) (since + work + POLL_INTERVAL + late) + work := by
  obtain ⟨ending,runs,ends⟩ := loadFrom_ends entry first child (start + first.spawning)
  obtain ⟨⟨answer,answered⟩,soon⟩ := ends.prompt within.work within.late early fun k after =>
    ⟨.Ready child,by rw [Polling.finds,ask_ready (stays k) (well k after)]⟩
  refine ⟨ending.ended,fun fuel enough => ?_,soon⟩
  have ready : fate ending = .Ready child := by
    rcases found_cases ends with ⟨_,_,found⟩ | ⟨status,_,exited,_,_⟩ | ⟨_,_,found⟩
    · rw [fate,found]
    · rw [stays] at exited
      cases exited
    · rw [answered] at found
      cases found
  have came : attemptFrom machine server entry root fuel start first = some (.ok child,ending.ended) := by
    simp only [attemptFrom,spawns.process,Except.map,spawns.spawn,runs fuel enough,Option.map_some,ready,attempt]
  rw [startFrom,came]

end

/-! ## A child that loads for three rounds -/

def quickEntry : Entry := ⟨"quick","quick",none,none,4096,.OnDemand,8,none,none,1,none,[]⟩

/-- The probe finds no listener, then a model that is loading, and then a model
    that serves. -/
def quickTrial : Trial ℕ where
  port := .ok 4000
  process := .ok 1
  spawning := 5
  rounds k := ⟨.Running,if k = 0 then none else if k < 3 then some 503 else some 200⟩
  laps _ := ⟨10,1⟩

theorem quick_spawns : Spawns ⟨fun _ => true,none⟩ quickEntry "/models" quickTrial 1 where
  model := by rw [NoModel]; exact Bool.noConfusion
  runtime := by rintro ⟨_,named,_⟩; cases named
  port := ⟨4000,rfl⟩
  process := rfl

/-- It is handed out a second round later at most. -/
theorem quick_ready_soon : ∃ now,
    startFrom ⟨fun _ => true,none⟩ ⟨"/bin/llama-server"⟩ quickEntry "/models" 12 0 quickTrial quickTrial = some (.ok 1,now) ∧
      now ≤ 400000059 := by
  have late (k : ℕ) (after : 300000038 ≤ begins POLL_INTERVAL quickTrial.laps (0 + quickTrial.spawning) k) : ¬ k < 3 := by
    intro early
    obtain rfl | rfl | rfl : k = 0 ∨ k = 1 ∨ k = 2 := by omega
    all_goals simp [begins,POLL_INTERVAL,quickTrial] at after
  have within : quickTrial.Within 5 10 1 := ⟨le_rfl,fun _ => le_rfl,fun _ => le_rfl⟩
  have in_time : 300000038 + 10 ≤ 0 + quickTrial.spawning + startupBudget quickEntry := by decide
  obtain ⟨now,runs,soon⟩ := ready_soon ⟨"/bin/llama-server"⟩ quickTrial 0 quick_spawns within in_time (fun _ => rfl)
    fun k after => by
      have past := late k after
      have positive : k ≠ 0 := by omega
      simp only [quickTrial,if_neg positive,if_neg past]
  exact ⟨now,runs 12 (by decide),soon⟩

/-- Its attempt ends in a round of its own. -/
theorem quick_attempt_ends : ∃ k result,
    attemptFrom ⟨fun _ => true,none⟩ ⟨"/bin/llama-server"⟩ quickEntry "/models" 12 0 quickTrial =
      some (result,asked POLL_INTERVAL quickTrial.laps (0 + quickTrial.spawning) k) := by
  obtain ⟨k,result,came,_⟩ := attempt_exact quick_spawns (by decide : startupBudget quickEntry / POLL_INTERVAL + 2 ≤ 12) 0
  exact ⟨k,result,came⟩

end Maestro.Launch
