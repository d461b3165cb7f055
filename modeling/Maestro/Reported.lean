import Mathlib.Data.List.Basic
import Mathlib.Data.List.Forall2

/-!
# Reading on while reporting

A value, and what there was to report about it by the time it was found.
Nothing that is reported stops the reading, and no report is taken back, so
what a reading reports is what its parts report, one after the other.
-/
namespace Maestro

/-- A value with the reports made on the way to it. -/
structure Reported (ε α : Type) where
  value : α
  reports : List ε
deriving DecidableEq, Repr

namespace Reported
variable {ε α β : Type}

instance : Monad (Reported ε) where
  pure value := ⟨value,[]⟩
  bind first next := ⟨(next first.value).value,first.reports ++ (next first.value).reports⟩

/-- Makes one report. -/
def report (problem : ε) : Reported ε Unit := ⟨(),[problem]⟩

/-- Makes every report of a list. -/
def reportAll (problems : List ε) : Reported ε Unit := ⟨(),problems⟩

/-! ## What is found, and what is reported -/

theorem ext {x y : Reported ε α} (value : x.value = y.value) (reports : x.reports = y.reports) : x = y := by
  cases x
  cases y
  rw [Reported.mk.injEq]
  exact ⟨value,reports⟩

section
variable (value : α) (x : Reported ε α) (f : α → Reported ε β) (g : α → β)

@[simp] theorem value_pure : (pure value : Reported ε α).value = value := rfl

@[simp] theorem reports_pure : (pure value : Reported ε α).reports = [] := rfl

@[simp] theorem value_bind : (x >>= f).value = (f x.value).value := (rfl)

@[simp] theorem reports_bind : (x >>= f).reports = x.reports ++ (f x.value).reports := (rfl)

@[simp] theorem value_map : (g <$> x).value = g x.value := rfl

@[simp] theorem reports_map : (g <$> x).reports = x.reports := List.append_nil _

end

@[simp] theorem reports_report (problem : ε) : (report problem).reports = [problem] := rfl

@[simp] theorem reports_reportAll (problems : List ε) : (reportAll problems).reports = problems := rfl

theorem id_map (x : Reported ε α) : id <$> x = x := by
  cases x
  simp [Functor.map]

theorem bind_assoc {γ : Type} (x : Reported ε α) (f : α → Reported ε β) (g : β → Reported ε γ) :
    x >>= f >>= g = x >>= fun found => f found >>= g := by
  simp [Bind.bind]

instance : LawfulMonad (Reported ε) := LawfulMonad.mk' (Reported ε) id_map (fun _ _ => rfl) bind_assoc

/-- One reading of each element finds one value for each. -/
theorem value_mapM (f : α → Reported ε β) (xs : List α) : (xs.mapM f).value = xs.map fun x => (f x).value := by
  induction xs with
  | nil => rfl
  | cons x xs ih => simp [List.mapM_cons,ih]

theorem reports_mapM (f : α → Reported ε β) (xs : List α) : (xs.mapM f).reports = xs.flatMap fun x => (f x).reports := by
  induction xs with
  | nil => rfl
  | cons x xs ih => simp [List.mapM_cons,ih]

/-- Nothing is reported of a list exactly when nothing is of an element. -/
theorem mapM_clean {f : α → Reported ε β} {xs : List α} : (xs.mapM f).reports = [] ↔ ∀ x ∈ xs, (f x).reports = [] := by
  rw [reports_mapM]
  exact List.flatMap_eq_nil_iff

/-- Elements that are read alike are read alike as a list. -/
theorem mapM_congr {f g : α → Reported ε β} {xs : List α} (alike : ∀ x ∈ xs, f x = g x) : xs.mapM f = xs.mapM g := by
  induction xs with
  | nil => rfl
  | cons x xs ih =>
    rw [List.mapM_cons,List.mapM_cons,alike x List.mem_cons_self,ih fun other inside => alike other (List.mem_cons_of_mem _ inside)]

/-! ## What every report is -/

/-- Every report of a reading is such a one. -/
def Each (p : ε → Prop) (x : Reported ε α) : Prop := ∀ problem ∈ x.reports, p problem

section
variable (p : ε → Prop)

@[simp] theorem each_pure (value : α) : (pure value : Reported ε α).Each p := fun _ inside => by cases inside

@[simp] theorem each_report (problem : ε) : (report problem).Each p ↔ p problem := List.forall_mem_singleton

@[simp] theorem each_reportAll (problems : List ε) : (reportAll problems).Each p ↔ ∀ problem ∈ problems, p problem := Iff.rfl

@[simp] theorem each_bind (x : Reported ε α) (f : α → Reported ε β) : (x >>= f).Each p ↔ x.Each p ∧ (f x.value).Each p :=
  List.forall_mem_append

@[simp] theorem each_map (g : α → β) (x : Reported ε α) : (g <$> x).Each p ↔ x.Each p := by
  unfold Each
  rw [reports_map]

@[simp] theorem each_mapM (f : α → Reported ε β) (xs : List α) : (xs.mapM f).Each p ↔ ∀ x ∈ xs, (f x).Each p := by
  unfold Each
  rw [reports_mapM]
  simp only [List.mem_flatMap]
  exact ⟨fun all x inside problem made => all problem ⟨x,inside,made⟩,fun all problem ⟨x,inside,made⟩ => all x inside problem made⟩

end

/-! ## Readings that can break off -/

section
variable (value : α) (x : Reported ε α)

@[simp] theorem value_run_pure : (pure value : OptionT (Reported ε) α).run.value = some value := rfl

@[simp] theorem value_run_lift : (liftM x : OptionT (Reported ε) α).run.value = some x.value := rfl

@[simp] theorem value_run_failure : (failure : OptionT (Reported ε) α).run.value = none := rfl

end

/-- What a reading finds behind one that can break off. -/
@[simp] theorem value_run_bind (x : OptionT (Reported ε) α) (f : α → OptionT (Reported ε) β) :
    (x >>= f).run.value = x.run.value.bind fun found => (f found).run.value := by
  rw [OptionT.run_bind]
  show (Option.elim x.run.value (pure none) fun found => (f found).run : Reported ε (Option β)).value = _
  cases x.run.value <;> rfl

/-- What is reported behind one that breaks off is not reported. -/
theorem reports_run_bind (x : OptionT (Reported ε) α) (f : α → OptionT (Reported ε) β) :
    (x >>= f).run.reports = x.run.reports ++ x.run.value.elim [] fun found => (f found).run.reports := by
  rw [OptionT.run_bind]
  show (x.run.reports ++ (Option.elim x.run.value (pure none) fun found => (f found).run : Reported ε (Option β)).reports) = _
  cases x.run.value <;> rfl

@[simp] theorem reports_run_pure (value : α) : (pure value : OptionT (Reported ε) α).run.reports = [] := rfl

@[simp] theorem reports_run_lift (x : Reported ε α) : (liftM x : OptionT (Reported ε) α).run.reports = x.reports :=
  List.append_nil _

end Reported
end Maestro
