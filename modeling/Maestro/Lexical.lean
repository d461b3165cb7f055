import Mathlib.Data.List.Induction

/-!
# Names, and steps up

A list of parts, each a name or a step up, leads from where one stands to some
other place. Wherever one stands, it is so many steps up and then some names.
-/
namespace Maestro.Lexical
variable {α : Type} [DecidableEq α] (up : α)

/-- Where one more part leads; there is no step up from the top. -/
def put (place : List α) (part : α) : List α := if part = up then place.dropLast else place ++ [part]

/-- Where the parts lead from a place. -/
def follow (place parts : List α) : List α := parts.foldl (put up) place

/-- A number of steps up, and the names behind them. -/
structure Reduced (α : Type) where
  ups : ℕ
  names : List α
deriving DecidableEq, Repr

/-- One more part: a step up takes back the last name, where there is one. -/
def Reduced.put (self : Reduced α) (part : α) : Reduced α :=
  if part = up then if self.names = [] then ⟨self.ups + 1,[]⟩ else ⟨self.ups,self.names.dropLast⟩
  else ⟨self.ups,self.names ++ [part]⟩

/-- The parts as so many steps up and some names. -/
def reduced (parts : List α) : Reduced α := parts.foldl (Reduced.put up) ⟨0,[]⟩

theorem follow_append (place before behind : List α) : follow up place (before ++ behind) = follow up (follow up place before) behind :=
  List.foldl_append

/-- Wherever one stands, the parts lead where their steps up and their names do. -/
theorem follow_eq (place parts : List α) :
    follow up place parts = place.take (place.length - (reduced up parts).ups) ++ (reduced up parts).names := by
  induction parts using List.reverseRecOn with
  | nil => simp [follow,reduced]
  | append_singleton parts part ih =>
    have one : reduced up (parts ++ [part]) = (reduced up parts).put up part := List.foldl_append
    rw [follow_append,ih,one]
    show put up _ part = _
    unfold put Reduced.put
    by_cases step : part = up
    · rw [if_pos step,if_pos step]
      by_cases none : (reduced up parts).names = []
      · rw [none,if_pos rfl,List.append_nil,List.append_nil,List.dropLast_eq_take,List.take_take,List.length_take]
        congr 1
        dsimp only
        omega
      · rw [if_neg none,List.dropLast_append_of_ne_nil none]
    · rw [if_neg step,if_neg step,List.append_assoc]

/-- The parts stay below a place exactly where their names begin with those the
    steps up took away. -/
theorem below_iff (place parts : List α) : place <+: follow up place parts ↔
    place.drop (place.length - (reduced up parts).ups) <+: (reduced up parts).names := by
  have split : place.take (place.length - (reduced up parts).ups) ++ place.drop (place.length - (reduced up parts).ups) <+:
      place.take (place.length - (reduced up parts).ups) ++ (reduced up parts).names ↔ _ := List.prefix_append_right_inj _
  rw [List.take_append_drop] at split
  rw [follow_eq]
  exact split

/-- Without steps up left over, the parts stay below any place. -/
theorem below_of_ups {parts : List α} (none : (reduced up parts).ups = 0) (place : List α) : place <+: follow up place parts := by
  rw [below_iff,none,Nat.sub_zero,List.drop_length]
  exact List.nil_prefix

end Maestro.Lexical
