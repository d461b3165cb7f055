import Maestro.Memory
import Maestro.Polling

/-!
# Running a tool within a time limit

One run of a platform tool against the clock, in nanoseconds: its output is
drained beside it while the run asks whether it has finished. What the tool does
and what each step takes is told for the run.
-/
namespace Maestro.Memory
open Polling (Lap Ending Ends asked poll)

/-- How long one tool may take before its answer is treated as no answer. -/
def TIMEOUT : ℕ := 5000000000

/-- How often a running tool is asked whether it has finished. -/
def POLL : ℕ := 20000000

/-- What asking a tool whether it has finished comes to. -/
inductive Wait
  | Finished (success : Bool)
  | Running
  | Unreadable
deriving DecidableEq, Repr

/-- What the machine does in one run: whether the tool starts, what each asking
    comes to, what its reader has read by the end of the pipe, if the reader did
    not panic; and what starting, each round, ending the tool and waiting for
    its reader take. -/
structure Run where
  spawns : Bool
  spawning : ℕ
  waits : ℕ → Wait
  laps : ℕ → Lap
  text : Option (List Char)
  killing : ℕ
  joining : ℕ

/-- What is left of the tool and of its reader. -/
structure Left where
  /-- Its exit was read, so the system keeps nothing of it. -/
  reaped : Bool
  killed : Bool
  joined : Bool
deriving DecidableEq, Repr

/-- What a run comes to: the answer, what it leaves if it started anything, and
    when it is over. -/
structure Ran where
  answer : Option (List Char)
  left : Option Left
  ended : ℕ
deriving DecidableEq, Repr

variable (run : Run)

/-- One round, up to the look at the clock: the tool's success, or none where
    its status cannot be read. -/
def ask (k : ℕ) (_ : Unit) : Except Unit (Option Bool) × Unit :=
  match run.waits k with
  | .Finished success => (.ok (some success), ())
  | .Unreadable => (.ok none, ())
  | .Running => (.error (), ())

/-- How the loop's ending leaves the run. -/
def leave (ending : Ending Unit (Option Bool) Unit) : Ran :=
  match ending.found with
  | .ok (some success) => ⟨run.text.filter fun _ => success,some ⟨true,false,true⟩,ending.ended + run.joining⟩
  | _ => ⟨none,some ⟨true,true,true⟩,ending.ended + run.killing + run.joining⟩

/-- What a tool printed, unless it could not be run, did not finish in time or
    finished unhappily. -/
def outputFrom (fuel start : ℕ) : Option Ran :=
  let began := start + run.spawning
  if run.spawns then (poll POLL (began + TIMEOUT) run.laps (ask run) fuel 0 began ()).map (leave run)
  else some ⟨none,none,began⟩

/-! ## What a run comes to -/

/-- Every round before this one found the tool running, within the limit. -/
def Passed (start k : ℕ) : Prop :=
  ∀ j < k, run.waits j = .Running ∧ asked POLL run.laps (start + run.spawning) j < start + run.spawning + TIMEOUT

variable {run} {start : ℕ} {ending : Ending Unit (Option Bool) Unit}

theorem poll_pos : 0 < POLL := by decide

theorem ask_running {k : ℕ} : (∃ report, (ask run k ()).1 = .error report) ↔ run.waits k = .Running := by
  rw [ask]
  cases run.waits k <;> simp

theorem passed_of_ends {deadline : ℕ} (is : deadline = start + run.spawning + TIMEOUT)
    (ends : Ends POLL deadline run.laps (ask run) (start + run.spawning) () ending) : Passed run start ending.round := by
  intro j lower
  obtain ⟨unanswered,early⟩ := ends.earlier j lower
  exact ⟨ask_running.mp unanswered,is ▸ early⟩

/-- The loop ends with the tool's success where a round finds it finished, and
    kills it where its status cannot be read or its time is over. -/
theorem found_cases {deadline : ℕ} (ends : Ends POLL deadline run.laps (ask run) (start + run.spawning) () ending) :
    (∃ success, run.waits ending.round = .Finished success ∧ ending.found = .ok (some success)) ∨
    (run.waits ending.round = .Unreadable ∧ ending.found = .ok none) ∨
    (run.waits ending.round = .Running ∧ deadline ≤ ending.ended ∧ ending.found = .error ()) := by
  have found : ending.found = (ask run ending.round ()).1 := ends.found
  cases waits : run.waits ending.round with
  | Finished success =>
    rw [ask,waits] at found
    exact .inl ⟨success,rfl,found⟩
  | Unreadable =>
    rw [ask,waits] at found
    exact .inr (.inl ⟨rfl,found⟩)
  | Running =>
    rw [ask,waits] at found
    exact .inr (.inr ⟨rfl,ends.gave_up found,found⟩)

/-- A tool that finished in some round was running in every round before it. -/
theorem round_unique {k : ℕ} {success : Bool} (passed : Passed run start ending.round) (finishes : run.waits k = .Finished success)
    (earlier : Passed run start k) (finished : run.waits ending.round ≠ .Running) : k = ending.round := by
  rcases lt_trichotomy k ending.round with lower | same | lower
  · rw [(passed k lower).1] at finishes
    cases finishes
  · exact same
  · exact absurd (earlier _ lower).1 finished

/-- A run is over soon after its limit at the latest, as its reader ends once the
    tool is gone, and leaves neither of the two behind. It answers with a text
    exactly where the tool was seen to finish well within the limit and its reader
    had that text; a tool is killed only once its time is over or the round that
    ends the run cannot read its status. -/
theorem output_in_time (run : Run) (start : ℕ) : ∃ ran, (∀ fuel, TIMEOUT / POLL + 2 ≤ fuel → outputFrom run fuel start = some ran) ∧
    (ran.left = none ↔ run.spawns = false) ∧
    (∀ left, ran.left = some left → left.reaped = true ∧ left.joined = true ∧
      (left.killed = true → (∃ k, run.waits k = .Unreadable ∧ Passed run start k) ∨ start + run.spawning + TIMEOUT ≤ ran.ended)) ∧
    (∀ text, ran.answer = some text ↔ run.spawns = true ∧ run.text = some text ∧
      ∃ k, run.waits k = .Finished true ∧ Passed run start k) ∧
    ∀ work late, (∀ k, (run.laps k).work ≤ work) → (∀ k, (run.laps k).late ≤ late) →
      ran.ended ≤ start + run.spawning + TIMEOUT + POLL + late + work + run.killing + run.joining := by
  cases spawns : run.spawns with
  | false =>
    refine ⟨⟨none,none,start + run.spawning⟩,fun fuel _ => by simp [outputFrom,spawns],by simp,by simp,fun text => by simp,
      fun work late _ _ => ?_⟩
    dsimp only
    omega
  | true =>
    obtain ⟨ending,runs,ends⟩ : ∃ ending, (∀ fuel, TIMEOUT / POLL + 2 ≤ fuel →
        poll POLL (start + run.spawning + TIMEOUT) run.laps (ask run) fuel 0 (start + run.spawning) () = some ending) ∧
        Ends POLL (start + run.spawning + TIMEOUT) run.laps (ask run) (start + run.spawning) () ending := by
      refine ⟨_,fun fuel enough => ?_,Polling.settle_ends poll_pos⟩
      refine Polling.poll_eq_settle poll_pos ?_
      rwa [Polling.rounds,Nat.add_sub_cancel_left]
    have passed : Passed run start ending.round := passed_of_ends rfl ends
    refine ⟨leave run ending,fun fuel enough => ?_,?_,?_,fun text => ?_,fun work late working sleeping => ?_⟩
    · simp [outputFrom,spawns,runs fuel enough]
    · rw [leave]
      split <;> simp
    · intro left is
      rw [leave] at is ⊢
      rcases found_cases ends with ⟨success,waits,found⟩ | ⟨waits,found⟩ | ⟨waits,spent,found⟩
      · rw [found] at is
        cases is
        exact ⟨rfl,rfl,fun killed => Bool.noConfusion killed⟩
      · rw [found] at is
        cases is
        exact ⟨rfl,rfl,fun _ => .inl ⟨ending.round,waits,passed⟩⟩
      · rw [found] at is ⊢
        cases is
        refine ⟨rfl,rfl,fun _ => .inr ?_⟩
        dsimp only
        omega
    · rw [leave]
      rcases found_cases ends with ⟨success,waits,found⟩ | ⟨waits,found⟩ | ⟨waits,spent,found⟩
      · rw [found]
        constructor
        · intro answers
          obtain ⟨read,well⟩ := Option.filter_eq_some_iff.mp answers
          cases well
          exact ⟨rfl,read,ending.round,waits,passed⟩
        · rintro ⟨_,read,k,finishes,earlier⟩
          obtain rfl := round_unique passed finishes earlier (by simp [waits])
          rw [waits] at finishes
          cases finishes
          exact Option.filter_eq_some_iff.mpr ⟨read,rfl⟩
      · rw [found]
        refine iff_of_false (by simp) ?_
        rintro ⟨_,_,k,finishes,earlier⟩
        obtain rfl := round_unique passed finishes earlier (by simp [waits])
        rw [waits] at finishes
        cases finishes
      · rw [found]
        refine iff_of_false (by simp) ?_
        rintro ⟨_,_,k,finishes,earlier⟩
        rcases lt_trichotomy k ending.round with lower | rfl | lower
        · rw [(passed k lower).1] at finishes
          cases finishes
        · rw [waits] at finishes
          cases finishes
        · -- The round that gave up had asked after the limit.
          have := (earlier _ lower).2
          rw [ends.ended] at spent
          omega
    · have soon := ends.soon working sleeping
      rw [max_eq_right (by omega)] at soon
      rw [leave]
      split <;> dsimp only <;> omega

end Maestro.Memory
