import Maestro.Catalog

/-!
# What a loaded child is, and how "somebody is reading from it" is known

One entry's slot, held under its own lock. A handle is a reference on a child:
`strong` is how many there are, and the slot's own is one of them. Each function
here is what happens between taking a slot's lock and releasing it, and gives
back what the slot holds then.
-/
namespace Maestro.Slots

/-- A child the router has running, and what deciding its fate needs. -/
structure Loaded (C : Type) where
  child : C
  lastUsed : ℕ
  measured : Measurement
deriving DecidableEq, Repr

abbrev Slot (C : Type) := Option (Loaded C)

/-- Whether a child process still exists, with the status it left. -/
inductive Liveness
  | Running
  | Exited (status : String)
deriving DecidableEq, Repr

section
variable {C : Type} (strong : C → ℕ) (check : C → Liveness)

/-- Whether anything besides its slot is holding this child. -/
def busy (handle : C) : Bool := 1 < strong handle

/-- The status a slot's child exited with, when it has and nothing else holds
    it: the process is asked only through the one handle there is. -/
def exited (held : Loaded C) : Option String :=
  if strong held.child = 1 then
    match check held.child with
    | .Exited status => some status
    | .Running => none
  else none

/-- The live child in a slot, if there is one, marked as used just now. -/
def liveChild (now : ℕ) : Slot C → Option C × Slot C
  | none => (none, none)
  | some held => match exited strong check held with
    | some _ => (none, none)
    | none => (some held.child, some { held with lastUsed := now })

/-- Empties a slot whose child has exited on its own. -/
def takeIfExited : Slot C → Option (Loaded C × String) × Slot C
  | none => (none, none)
  | some held => match exited strong check held with
    | some status => (some (held, status), none)
    | none => (none, some held)

end

/-- What taking a slot came to. -/
inductive Take (C : Type)
  | Taken (loaded : Loaded C)
  | Busy
  | Empty
deriving DecidableEq, Repr

section
variable {C : Type} (strong : C → ℕ)

/-- Empties a slot, unless something started reading from what is in it or the
    caller's own condition refuses it. -/
def takeIfIdle (also : Loaded C → Bool) : Slot C → Take C × Slot C
  | some held => if busy strong held.child || !also held then (.Busy, some held) else (.Taken held, none)
  | none => (.Empty, none)

/-- Marks what a slot holds as used just now. -/
def touched (now : ℕ) : Slot C → Slot C
  | some held => some { held with lastUsed := now }
  | none => none

end

/-! ## What each of them leaves -/

section
variable {C : Type} {strong : C → ℕ} {check : C → Liveness} {now : ℕ} {slot : Slot C}

theorem exited_of_read {held : Loaded C} (read : strong held.child ≠ 1) : exited strong check held = none := if_neg read

theorem exited_alone {held : Loaded C} {status : String} (gone : exited strong check held = some status) :
    strong held.child = 1 ∧ check held.child = .Exited status := by
  by_cases alone : strong held.child = 1
  · refine ⟨alone,?_⟩
    rw [exited,if_pos alone] at gone
    cases found : check held.child with
    | Running => simp [found] at gone
    | Exited other =>
      rw [found] at gone
      cases gone
      rfl
  · rw [exited_of_read alone] at gone
    cases gone

/-- A slot is used, or emptied of a child that nobody else held and that had
    exited, or was empty. -/
theorem liveChild_cases (strong : C → ℕ) (check : C → Liveness) (now : ℕ) (slot : Slot C) : (slot = none ∧ liveChild strong check now slot = (none,none)) ∨
    (∃ held status, slot = some held ∧ strong held.child = 1 ∧ check held.child = .Exited status ∧
      liveChild strong check now slot = (none,none)) ∨
    ∃ held, slot = some held ∧ exited strong check held = none ∧
      liveChild strong check now slot = (some held.child,some { held with lastUsed := now }) := by
  cases slot with
  | none => exact .inl ⟨rfl,rfl⟩
  | some held =>
    right
    cases gone : exited strong check held with
    | some status =>
      obtain ⟨alone,dead⟩ := exited_alone gone
      exact .inl ⟨held,status,rfl,alone,dead,by simp [liveChild,gone]⟩
    | none => exact .inr ⟨held,rfl,gone,by simp [liveChild,gone]⟩

theorem takeIfExited_cases (strong : C → ℕ) (check : C → Liveness) (slot : Slot C) : (takeIfExited strong check slot = (none,slot)) ∨
    ∃ held status, slot = some held ∧ strong held.child = 1 ∧ check held.child = .Exited status ∧
      takeIfExited strong check slot = (some (held,status),none) := by
  cases slot with
  | none => exact .inl rfl
  | some held =>
    cases gone : exited strong check held with
    | some status =>
      obtain ⟨alone,dead⟩ := exited_alone gone
      exact .inr ⟨held,status,rfl,alone,dead,by simp [takeIfExited,gone]⟩
    | none => exact .inl (by simp [takeIfExited,gone])

theorem takeIfIdle_cases (strong : C → ℕ) (also : Loaded C → Bool) (slot : Slot C) :
    (slot = none ∧ takeIfIdle strong also slot = (.Empty,slot)) ∨
    (∃ held, slot = some held ∧ (1 < strong held.child ∨ also held = false) ∧ takeIfIdle strong also slot = (.Busy,slot)) ∨
    ∃ held, slot = some held ∧ strong held.child ≤ 1 ∧ also held = true ∧
      takeIfIdle strong also slot = (.Taken held,none) := by
  cases slot with
  | none => exact .inl ⟨rfl,rfl⟩
  | some held =>
    right
    by_cases stays : busy strong held.child || !also held
    · refine .inl ⟨held,rfl,?_,by simp [takeIfIdle,stays]⟩
      simpa [busy] using stays
    · have goes : busy strong held.child = false ∧ also held = true := by simpa using stays
      refine .inr ⟨held,rfl,?_,goes.2,by simp [takeIfIdle,stays]⟩
      exact Nat.not_lt.mp (of_decide_eq_false goes.1)

end
end Maestro.Slots
