import Mathlib.Order.MinMax
import Mathlib.Tactic.Common

/-!
# Asking again until an answer or a deadline

A loop that asks, gives up once the deadline has passed, and otherwise sleeps a
fixed interval before it asks again. What asking costs, and by how much a sleep
is late, is told for each round. Time is counted in any unit.
-/
namespace Maestro.Polling

/-- What a round costs: the asking, and what its sleep takes beyond the
    interval. -/
structure Lap where
  work : ℕ
  late : ℕ
deriving DecidableEq, Repr

/-- How a loop ends: in which round and when, with the answer or, where it gave
    up, with what the last round reported instead. -/
structure Ending (S A R : Type) where
  round : ℕ
  ended : ℕ
  state : S
  found : Except R A

section
variable {S A R : Type} (interval deadline : ℕ) (laps : ℕ → Lap) (ask : ℕ → S → Except R A × S)

/-- The loop from round `k` on; `none` once the fuel is spent. -/
def poll : ℕ → ℕ → ℕ → S → Option (Ending S A R)
  | 0, _, _, _ => none
  | fuel + 1, k, now, s =>
    match ask k s, now + (laps k).work with
    | (.ok answer, s), now => some ⟨k,now,s,.ok answer⟩
    | (.error report, s), now =>
      if deadline ≤ now then some ⟨k,now,s,.error report⟩
      else poll fuel (k + 1) (now + interval + (laps k).late) s

/-! ## The rounds by number -/

/-- When a round begins, if no earlier one was the last. -/
def begins (start : ℕ) : ℕ → ℕ
  | 0 => start
  | k + 1 => begins start k + (laps k).work + interval + (laps k).late

/-- When a round has asked. -/
def asked (start k : ℕ) : ℕ := begins interval laps start k + (laps k).work

/-- The state a round begins in. -/
def reached (s : S) : ℕ → S
  | 0 => s
  | k + 1 => (ask k (reached s k)).2

/-- What a round finds. -/
def finds (s : S) (k : ℕ) : Except R A := (ask k (reached ask s k)).1

/-- The loop has one more round after this one. -/
def GoesOn (start : ℕ) (s : S) (k : ℕ) : Prop :=
  (∃ report, finds ask s k = .error report) ∧ asked interval laps start k < deadline

/-- The ending is that of the first round that answers or is over the deadline
    when it has asked. -/
structure Ends (start : ℕ) (s : S) (ending : Ending S A R) : Prop where
  earlier : ∀ k < ending.round, GoesOn interval deadline laps ask start s k
  last : ¬ GoesOn interval deadline laps ask start s ending.round
  ended : ending.ended = asked interval laps start ending.round
  state : ending.state = reached ask s (ending.round + 1)
  found : ending.found = finds ask s ending.round

variable {interval deadline laps ask} {start : ℕ} {s : S} {ending : Ending S A R}

/-- From the state and the moment in which round `k` begins the loop ends as the
    rounds do. -/
theorem poll_from (fuel k : ℕ) (earlier : ∀ j < k, GoesOn interval deadline laps ask start s j)
    (polled : poll interval deadline laps ask fuel k (begins interval laps start k) (reached ask s k) = some ending) :
    Ends interval deadline laps ask start s ending := by
  induction fuel generalizing k with
  | zero => cases polled
  | succ fuel ih =>
    have here : ask k (reached ask s k) = (finds ask s k,reached ask s (k + 1)) := rfl
    rw [poll,here] at polled
    cases found : finds ask s k with
    | ok answer =>
      rw [found] at polled
      cases polled
      refine ⟨earlier,?_,rfl,rfl,found.symm⟩
      rintro ⟨⟨_,refused⟩,_⟩
      rw [found] at refused
      cases refused
    | error report =>
      rw [found] at polled
      dsimp only at polled
      split_ifs at polled with late
      · cases polled
        exact ⟨earlier,fun ⟨_,before⟩ => absurd before (not_lt.mpr late),rfl,rfl,found.symm⟩
      · refine ih (k + 1) (fun j lower => ?_) polled
        rcases Nat.lt_succ_iff_lt_or_eq.mp lower with lower | rfl
        · exact earlier j lower
        · exact ⟨⟨report,found⟩,not_le.mp late⟩

/-- A loop that ends has gone through the rounds in order, up to the first that
    answers or is over the deadline. -/
theorem ends_of_poll {fuel : ℕ} (polled : poll interval deadline laps ask fuel 0 start s = some ending) :
    Ends interval deadline laps ask start s ending :=
  poll_from fuel 0 (fun _ lower => absurd lower (Nat.not_lt_zero _)) polled

/-- The loop ends within the rounds whose intervals reach from its start to the
    deadline, and one more. -/
theorem poll_within (fuel k now : ℕ) (s : S) (enough : deadline ≤ now + interval * fuel) :
    ∃ ending, poll interval deadline laps ask (fuel + 1) k now s = some ending := by
  induction fuel generalizing k now s with
  | zero =>
    rw [poll]
    rcases ask k s with ⟨report | answer,s⟩
    · have late : deadline ≤ now + (laps k).work := by omega
      exact ⟨_,if_pos late⟩
    · exact ⟨_,rfl⟩
  | succ fuel ih =>
    rw [poll]
    rcases ask k s with ⟨report | answer,s⟩
    · by_cases late : deadline ≤ now + (laps k).work
      · exact ⟨_,if_pos late⟩
      · obtain ⟨ending,polled⟩ := ih (k + 1) (now + (laps k).work + interval + (laps k).late) s (by
          rw [Nat.mul_succ] at enough
          omega)
        exact ⟨ending,(if_neg late).trans polled⟩
    · exact ⟨_,rfl⟩

/-- Fuel for every round from `start` to the deadline. -/
def rounds (interval deadline start : ℕ) : ℕ := (deadline - start) / interval + 2

theorem poll_rounds (positive : 0 < interval) {fuel : ℕ} (enough : rounds interval deadline start ≤ fuel) :
    ∃ ending, poll interval deadline laps ask fuel 0 start s = some ending := by
  obtain ⟨spare,rfl⟩ := Nat.exists_eq_add_of_le enough
  have reaches : deadline - start < interval * ((deadline - start) / interval + 1) := by
    rw [Nat.mul_add_one]
    exact Nat.lt_mul_div_succ _ positive
  have further : interval * ((deadline - start) / interval + 1) ≤ interval * ((deadline - start) / interval + 1 + spare) :=
    Nat.mul_le_mul_left _ (Nat.le_add_right _ _)
  have as_succ : rounds interval deadline start + spare = (deadline - start) / interval + 1 + spare + 1 := by
    rw [rounds]
    omega
  rw [as_succ]
  exact poll_within _ 0 start s (by omega)

theorem Ends.unique {other : Ending S A R} (one : Ends interval deadline laps ask start s ending)
    (another : Ends interval deadline laps ask start s other) : ending = other := by
  have round : ending.round = other.round := by
    rcases lt_trichotomy ending.round other.round with lower | same | lower
    · exact absurd (another.earlier _ lower) one.last
    · exact same
    · exact absurd (one.earlier _ lower) another.last
  obtain ⟨_,_,ended,reached,found⟩ := one
  obtain ⟨_,_,ended',reached',found'⟩ := another
  cases ending
  cases other
  simp_all

/-- The loop with fuel for every round: its ending. -/
def settle (interval deadline : ℕ) (laps : ℕ → Lap) (ask : ℕ → S → Except R A × S) (positive : 0 < interval) (start : ℕ) (s : S) :
    Ending S A R :=
  (poll interval deadline laps ask (rounds interval deadline start) 0 start s).get
    (Option.isSome_iff_exists.mpr (poll_rounds positive le_rfl))

theorem settle_ends (positive : 0 < interval) :
    Ends interval deadline laps ask start s (settle interval deadline laps ask positive start s) :=
  ends_of_poll (Option.some_get _).symm

/-- More fuel than that changes nothing. -/
theorem poll_eq_settle (positive : 0 < interval) {fuel : ℕ} (enough : rounds interval deadline start ≤ fuel) :
    poll interval deadline laps ask fuel 0 start s = some (settle interval deadline laps ask positive start s) := by
  obtain ⟨ending,polled⟩ : ∃ ending, poll interval deadline laps ask fuel 0 start s = some ending :=
    poll_rounds positive enough
  rw [polled,(ends_of_poll polled).unique (settle_ends positive)]

/-! ## What an ending says -/

theorem begins_le (k : ℕ) : start + k * interval ≤ begins interval laps start k := by
  induction k with
  | zero => simp [begins]
  | succ k ih =>
    rw [begins,Nat.add_one_mul]
    omega

theorem Ends.since (ends : Ends interval deadline laps ask start s ending) : start ≤ ending.ended := by
  have later : start + ending.round * interval ≤ begins interval laps start ending.round := begins_le ending.round
  rw [ends.ended,asked]
  omega

/-- Nobody gives up before the deadline. -/
theorem Ends.gave_up {report : R} (ends : Ends interval deadline laps ask start s ending) (unanswered : ending.found = .error report) :
    deadline ≤ ending.ended := by
  rw [ends.ended]
  refine not_lt.mp fun before => ends.last ⟨⟨report,?_⟩,before⟩
  rw [← ends.found,unanswered]

/-- An answer is that of the first round that has one. -/
theorem Ends.first {answer : A} (ends : Ends interval deadline laps ask start s ending) (answered : ending.found = .ok answer) :
    finds ask s ending.round = .ok answer ∧ ∀ k < ending.round, ∃ report, finds ask s k = .error report :=
  ⟨ends.found.symm.trans answered,fun k lower => (ends.earlier k lower).1⟩

/-- Every round but the first began because the deadline was still ahead, so as
    many intervals and one fit before it. -/
theorem Ends.rounds {k : ℕ} (ends : Ends interval deadline laps ask start s ending) (round : ending.round = k + 1) :
    start + k * interval < deadline := by
  have before : begins interval laps start k + (laps k).work < deadline := (ends.earlier k (by omega)).2
  have : start + k * interval ≤ begins interval laps start k := begins_le k
  omega

/-- A deadline that has passed already leaves one round. -/
theorem Ends.once (ends : Ends interval deadline laps ask start s ending) (passed : deadline ≤ start) : ending.round = 0 := by
  cases round : ending.round with
  | zero => rfl
  | succ k =>
    have := ends.rounds round
    omega

/-- The loop outlasts the later of its start and its deadline by an interval, a
    late sleep and an asking at most. -/
theorem Ends.soon {work late : ℕ} (ends : Ends interval deadline laps ask start s ending) (working : ∀ k, (laps k).work ≤ work)
    (sleeping : ∀ k, (laps k).late ≤ late) : ending.ended ≤ max start (deadline + interval + late) + work := by
  rw [ends.ended,asked]
  refine Nat.add_le_add ?_ (working _)
  cases round : ending.round with
  | zero => exact le_max_left _ _
  | succ k =>
    have before : begins interval laps start k + (laps k).work < deadline := (ends.earlier k (by omega)).2
    have := sleeping k
    rw [begins]
    exact le_max_of_le_right (by omega)

/-- Every round that begins after some moment would answer: then the loop does
    not give up, if that moment leaves a round the time to ask before the
    deadline, and answers soon after it. -/
theorem Ends.prompt {since work late : ℕ} (ends : Ends interval deadline laps ask start s ending)
    (working : ∀ k, (laps k).work ≤ work) (sleeping : ∀ k, (laps k).late ≤ late) (early : since + work ≤ deadline)
    (answers : ∀ k, since ≤ begins interval laps start k → ∃ answer, finds ask s k = .ok answer) :
    (∃ answer, ending.found = .ok answer) ∧ ending.ended ≤ max start (since + work + interval + late) + work := by
  constructor
  · -- The last round began after the moment, or has asked before the deadline.
    cases found : ending.found with
    | ok answer => exact ⟨answer,rfl⟩
    | error report =>
      have late := ends.gave_up found
      rw [ends.found] at found
      rw [ends.ended,asked] at late
      have before : begins interval laps start ending.round < since := by
        refine not_le.mp fun after => ?_
        obtain ⟨answer,answered⟩ := answers _ after
        rw [found] at answered
        cases answered
      have := working ending.round
      omega
  · rw [ends.ended,asked]
    refine Nat.add_le_add ?_ (working _)
    cases round : ending.round with
    | zero => exact le_max_left _ _
    | succ k =>
      obtain ⟨⟨report,unanswered⟩,_⟩ := ends.earlier k (by omega)
      have before : begins interval laps start k < since := by
        refine not_le.mp fun after => ?_
        obtain ⟨answer,answered⟩ := answers k after
        rw [unanswered] at answered
        cases answered
      have := working k
      have := sleeping k
      rw [begins]
      exact le_max_of_le_right (by omega)

end
end Maestro.Polling
