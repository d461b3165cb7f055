import Maestro.Spans
import Mathlib.Logic.Function.Iterate
import Mathlib.Tactic.IntervalCases

/-!
# The date a measurement is written down with

Days since 1970 are counted off year by year, and what is left of the last one
month by month. The date is as many days on from the first of January 1970 as
have passed, each day being followed by the next of its month, the first of the
next month or the first of January.
-/
namespace Maestro.Bench

/-- Whether a year has a twenty-ninth of February. -/
def leap (year : ℕ) : Bool := year % 4 = 0 && year % 100 ≠ 0 || year % 400 = 0

/-- The loop over the years, and what is left for the loop over the months. -/
def years : Spans.Endless where
  length year := if leap year then 366 else 365
  positive year := by split <;> decide

def lengths (year : ℕ) : List ℕ := [31,if leap year then 29 else 28,31,30,31,30,31,31,30,31,30,31]

/-- A day of a month of a year. -/
structure Date where
  year : ℕ
  month : ℕ
  day : ℕ
deriving DecidableEq, Repr

/-- The date so many seconds after the epoch; no month is looked up behind the
    twelfth. -/
def civil (seconds : ℕ) : Option Date :=
  let (year,remaining) := years.locate 1970 (seconds / 86400)
  (Spans.locate (lengths year) 0 remaining).map fun (month,remaining) => ⟨year,month + 1,remaining + 1⟩

/-- A number in at least so many digits. -/
def padded (width n : ℕ) : List Char := List.replicate (width - (toString n).length) '0' ++ (toString n).toList

def today (seconds : ℕ) : Option (List Char) :=
  (civil seconds).map fun date => padded 4 date.year ++ '-' :: padded 2 date.month ++ '-' :: padded 2 date.day

/-! ## The calendar -/

/-- Thirty days have four of the months, and February has its own. -/
def daysIn (year month : ℕ) : ℕ :=
  if month = 2 then (if leap year then 29 else 28) else if month ∈ [4,6,9,11] then 30 else 31

/-- The day after. -/
def Date.next (self : Date) : Date :=
  if self.day < daysIn self.year self.month then ⟨self.year,self.month,self.day + 1⟩
  else if self.month < 12 then ⟨self.year,self.month + 1,1⟩
  else ⟨self.year + 1,1,1⟩

/-- A day that the calendar has. -/
structure Date.Valid (date : Date) : Prop where
  month : 1 ≤ date.month ∧ date.month ≤ 12
  day : 1 ≤ date.day ∧ date.day ≤ daysIn date.year date.month

theorem one_le_daysIn (year month : ℕ) : 1 ≤ daysIn year month := by
  unfold daysIn
  split_ifs <;> decide

theorem lengths_eq (year : ℕ) {month : ℕ} (twelve : month < 12) : (lengths year)[month]? = some (daysIn year (month + 1)) := by
  interval_cases month <;> rfl

theorem lengths_sum (year : ℕ) : (lengths year).sum = years.length year := by
  simp only [lengths,years]
  cases leap year <;> rfl

/-- The date of a day within a year. -/
def ofDay (year remaining : ℕ) : Option Date :=
  (Spans.locate (lengths year) 0 remaining).map fun (month,remaining) => ⟨year,month + 1,remaining + 1⟩

/-- How many days of its year are over on a date. -/
def Date.over (self : Date) : ℕ := ((lengths self.year).take (self.month - 1)).sum + (self.day - 1)

theorem ofDay_eq_some {year remaining : ℕ} {date : Date} :
    ofDay year remaining = some date ↔ date.Valid ∧ date.year = year ∧ date.over = remaining := by
  obtain ⟨y,m,d⟩ := date
  constructor
  · intro found
    obtain ⟨⟨month,into⟩,located,is⟩ := Option.map_eq_some_iff.mp found
    cases is
    obtain ⟨_,length,there,inside,sum⟩ := Spans.locate_eq_some.mp located
    have twelve : month < 12 := (List.getElem?_eq_some_iff.mp there).1
    rw [Nat.sub_zero,lengths_eq year twelve] at there
    cases there
    exact ⟨⟨⟨by simp,Nat.succ_le_of_lt twelve⟩,⟨by simp,inside⟩⟩,rfl,by simpa [Date.over] using sum⟩
  · rintro ⟨⟨⟨some_month,twelve⟩,some_day,inside⟩,rfl,rfl⟩
    dsimp only at some_month twelve some_day inside
    refine Option.map_eq_some_iff.mpr ⟨(m - 1,d - 1),Spans.locate_eq_some.mpr ⟨Nat.zero_le _,_,lengths_eq y (by omega),?_,rfl⟩,?_⟩
    · rw [Nat.sub_zero,Nat.sub_add_cancel some_month]
      omega
    · dsimp only
      rw [Nat.sub_add_cancel some_month,Nat.sub_add_cancel some_day]

theorem taken_next (year : ℕ) {month : ℕ} (some_month : 1 ≤ month) (twelve : month ≤ 12) :
    ((lengths year).take month).sum = ((lengths year).take (month - 1)).sum + daysIn year month := by
  obtain ⟨n,rfl⟩ : ∃ n, month = n + 1 := ⟨month - 1,by omega⟩
  rw [Nat.add_sub_cancel,List.take_add_one,lengths_eq year (by omega),List.sum_append]
  simp

/-- No more days are over than the year has. -/
theorem over_lt {date : Date} (valid : date.Valid) : date.over < years.length date.year := by
  have month := taken_next date.year valid.month.1 valid.month.2
  have rest := List.sum_take_add_sum_drop (lengths date.year) date.month
  rw [lengths_sum] at rest
  have inside := valid.day
  rw [Date.over]
  omega

/-- The day after is in the same year, or the first of the next. -/
theorem next_cases {date : Date} (valid : date.Valid) : date.next.Valid ∧
    (date.next.year = date.year ∧ date.next.over = date.over + 1 ∨
      date.next = ⟨date.year + 1,1,1⟩ ∧ date.over + 1 = years.length date.year) := by
  obtain ⟨y,m,d⟩ := date
  obtain ⟨⟨some_month,twelve⟩,some_day,inside⟩ := valid
  dsimp only at some_month twelve some_day inside ⊢
  have month := taken_next y some_month twelve
  rw [Date.next]
  dsimp only
  by_cases more : d < daysIn y m
  · rw [if_pos more]
    refine ⟨⟨⟨some_month,twelve⟩,by simp,more⟩,.inl ⟨rfl,?_⟩⟩
    simp only [Date.over]
    omega
  rw [if_neg more]
  by_cases onward : m < 12
  · rw [if_pos onward]
    refine ⟨⟨⟨by simp,onward⟩,le_refl 1,one_le_daysIn _ _⟩,.inl ⟨rfl,?_⟩⟩
    simp only [Date.over,Nat.add_sub_cancel]
    omega
  · rw [if_neg onward]
    obtain rfl : m = 12 := by omega
    refine ⟨⟨by simp,⟨le_refl 1,one_le_daysIn _ _⟩⟩,.inr ⟨rfl,?_⟩⟩
    have all : ((lengths y).take 12).sum = years.length y := lengths_sum y
    simp only [Date.over]
    omega

/-- The date so many days after the epoch. -/
def onDay (days : ℕ) : Option Date := ofDay (years.locate 1970 days).1 (years.locate 1970 days).2

/-- Each day is followed by the next. -/
theorem onDay_succ {days : ℕ} {date : Date} (is : onDay days = some date) : onDay (days + 1) = some date.next := by
  obtain ⟨valid,year,passed⟩ := ofDay_eq_some.mp is
  obtain ⟨still,⟨same,on⟩ | ⟨first,last⟩⟩ := next_cases valid
  · have within := over_lt still
    rw [same,on,year,passed] at within
    rw [onDay,years.locate_next 1970 days within]
    exact ofDay_eq_some.mpr ⟨still,same.trans year,by rw [on,passed]⟩
  · rw [year,passed] at last
    rw [onDay,years.locate_last 1970 days last]
    refine ofDay_eq_some.mpr ⟨still,?_,?_⟩
    · rw [first,year]
    · rw [first]
      rfl

/-- Whatever the clock says, there is a date, and it is as many days on from the
    first of January 1970 as have passed. -/
theorem civil_counts (seconds : ℕ) : civil seconds = some (Date.next^[seconds / 86400] ⟨1970,1,1⟩) := by
  have each (days : ℕ) : onDay days = some (Date.next^[days] ⟨1970,1,1⟩) := by
    induction days with
    | zero =>
      have here : years.locate 1970 0 = (1970,0) := years.locate_here (by decide)
      rw [onDay,here]
      rfl
    | succ days ih =>
      rw [Function.iterate_succ_apply']
      exact onDay_succ ih
  exact each (seconds / 86400)

end Maestro.Bench
