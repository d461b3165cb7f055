import Mathlib.Data.List.Basic

/-!
# A text cut at its first empty line

Lines over any alphabet, each ended by the same two elements, and an empty one
after them. Whatever follows the empty line, the cut is there and nowhere before.
-/
namespace Maestro.EmptyLine

variable {α : Type*}

/-- Lines one after the other, each with its end. -/
def written (cr lf : α) (lines : List (List α)) : List α := (lines.map (· ++ [cr,lf])).flatten

/-- Lines between line ends. -/
def joined (cr lf : α) : List (List α) → List α
  | [] => []
  | [line] => line
  | line :: lines => line ++ [cr,lf] ++ joined cr lf lines

/-- A line that neither is empty nor goes on behind a line end. -/
def Plain (lf : α) (line : List α) : Prop := line ≠ [] ∧ lf ∉ line

variable [DecidableEq α] {cr lf : α}

/-- The parts in front of and behind the first occurrence of a separator. -/
def splitFirst (sep : List α) : List α → Option (List α × List α)
  | [] => if sep.isEmpty then some ([],[]) else none
  | x :: rest =>
    if sep.isPrefixOf (x :: rest) then some ([],(x :: rest).drop sep.length)
    else (splitFirst sep rest).map fun (l,r) => (x :: l,r)

theorem splitFirst_step {sep : List α} {x : α} {rest : List α} (elsewhere : sep.isPrefixOf (x :: rest) = false) :
    splitFirst sep (x :: rest) = (splitFirst sep rest).map fun (l,r) => (x :: l,r) := by
  rw [splitFirst,elsewhere]
  rfl

/-- An empty line begins at a line end. -/
theorem not_empty_line {x y : α} {rest : List α} (other : y ≠ lf) : [cr,lf,cr,lf].isPrefixOf (x :: y :: rest) = false := by
  have different : (lf == y) = false := beq_eq_false_iff_ne.mpr fun same => other same.symm
  simp [List.isPrefixOf,different]

theorem splitFirst_plain {x : α} {line rest : List α} (apart : cr ≠ lf) (plain : lf ∉ line) :
    splitFirst [cr,lf,cr,lf] (x :: (line ++ [cr,lf] ++ rest)) =
      (splitFirst [cr,lf,cr,lf] (line ++ [cr,lf] ++ rest)).map fun (l,r) => (x :: l,r) := by
  refine splitFirst_step ?_
  cases line with
  | nil => exact not_empty_line apart
  | cons y line => exact not_empty_line fun same => plain (by simp [same])

/-- A line with an empty one after it is the last. -/
theorem splitFirst_last {line : List α} (apart : cr ≠ lf) (plain : lf ∉ line) (body : List α) :
    splitFirst [cr,lf,cr,lf] (line ++ [cr,lf] ++ ([cr,lf] ++ body)) = some (line,body) := by
  induction line with
  | nil => simp [splitFirst,List.isPrefixOf]
  | cons x line ih =>
    have onward : lf ∉ line := fun member => plain (List.mem_cons_of_mem x member)
    rw [List.cons_append,List.cons_append,splitFirst_plain apart onward,ih onward]
    rfl

/-- A line with another one after it is not. -/
theorem splitFirst_line {line rest : List α} (apart : cr ≠ lf) (plain : lf ∉ line) (more : [cr,lf].isPrefixOf rest = false) :
    splitFirst [cr,lf,cr,lf] (line ++ [cr,lf] ++ rest) =
      (splitFirst [cr,lf,cr,lf] rest).map fun (l,r) => (line ++ [cr,lf] ++ l,r) := by
  induction line with
  | nil =>
    have here : [cr,lf,cr,lf].isPrefixOf (cr :: lf :: rest) = false := by
      simpa [List.isPrefixOf] using more
    have next : [cr,lf,cr,lf].isPrefixOf (lf :: rest) = false := by
      simp [List.isPrefixOf,apart]
    change splitFirst [cr,lf,cr,lf] (cr :: lf :: rest) = _
    rw [splitFirst_step here,splitFirst_step next,Option.map_map]
    rfl
  | cons x line ih =>
    have onward : lf ∉ line := fun member => plain (List.mem_cons_of_mem x member)
    rw [List.cons_append,List.cons_append,splitFirst_plain apart onward,ih onward,Option.map_map]
    rfl

theorem Plain.not_ended {line rest : List α} (plain : Plain lf line) : [cr,lf].isPrefixOf (line ++ [cr,lf] ++ rest) = false := by
  obtain ⟨filled,one⟩ := plain
  match line with
  | [] => exact absurd rfl filled
  | [x] =>
    by_cases same : lf = cr
    · have other : (cr == x) = false := beq_eq_false_iff_ne.mpr fun is => one (by simp [same,is])
      simp [List.isPrefixOf,other]
    · simp [List.isPrefixOf,same]
  | x :: y :: line =>
    have other : (lf == y) = false := beq_eq_false_iff_ne.mpr fun same => one (by simp [← same])
    simp [List.isPrefixOf,other]

/-- A text of plain lines is cut at the first empty line after them, whatever
    follows it. -/
theorem splitFirst_written {line : List α} {lines : List (List α)} (apart : cr ≠ lf) (plain : ∀ l ∈ line :: lines, Plain lf l)
    (body : List α) :
    splitFirst [cr,lf,cr,lf] (written cr lf (line :: lines) ++ [cr,lf] ++ body) = some (joined cr lf (line :: lines),body) := by
  induction lines generalizing line with
  | nil =>
    have only : written cr lf [line] ++ [cr,lf] ++ body = line ++ [cr,lf] ++ ([cr,lf] ++ body) := by simp [written]
    rw [only,splitFirst_last apart (plain line (List.mem_cons_self ..)).2]
    rfl
  | cons next lines ih =>
    have rest : ∀ l ∈ next :: lines, Plain lf l := fun l member => plain l (List.mem_cons_of_mem line member)
    have cut : written cr lf (line :: next :: lines) ++ [cr,lf] ++ body =
        line ++ [cr,lf] ++ (written cr lf (next :: lines) ++ [cr,lf] ++ body) := by
      simp [written]
    have more : [cr,lf].isPrefixOf (written cr lf (next :: lines) ++ [cr,lf] ++ body) = false := by
      have shape : written cr lf (next :: lines) ++ [cr,lf] ++ body =
          next ++ [cr,lf] ++ (written cr lf lines ++ [cr,lf] ++ body) := by simp [written]
      rw [shape]
      exact (rest next (List.mem_cons_self ..)).not_ended
    rw [cut,splitFirst_line apart (plain line (List.mem_cons_self ..)).2 more,ih rest]
    rfl

end Maestro.EmptyLine
