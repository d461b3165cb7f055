import Maestro.AdmissionExact

/-!
# What a decision to load relies on

Read off a decision that lets the entry in: there is room already, or there is
once every entry it names is unloaded, and the names are those of idle
on-demand entries that are loaded.
-/
namespace Maestro.Admission
open Maestro.Selection

variable {budget : Budget} {loaded : List Loaded} {wanted : Wanted} {free : Option ℕ}

/-- A decision other than letting a loaded entry be was weighed. -/
theorem weigh_of_admit {decision : Decision} (absent : ¬ IsLoaded loaded wanted)
    (decided : budget.admit loaded wanted free = some decision) (admits : ∀ message, decision ≠ .Refuse message) :
    budget.weigh loaded wanted free = some decision := by
  by_cases large : TooLarge budget wanted
  · obtain ⟨limit,is,exceeds⟩ := large
    rw [admit_too_large free absent is exceeds] at decided
    cases decided
    exact absurd rfl (admits _)
  · rwa [admit_weigh free absent large] at decided

theorem fits_room (absent : ¬ IsLoaded loaded wanted) (fits : budget.admit loaded wanted free = some .Fits) :
    RoomAfter budget loaded wanted free [] := by
  have weighed := weigh_of_admit absent fits (by simp)
  have fine : Calculable budget loaded wanted free := by
    by_contra beyond
    rw [weigh_panics beyond] at weighed
    cases weighed
  by_contra short
  by_cases enough : RoomAfter budget loaded wanted free (taken budget loaded wanted free)
  · rw [weigh_unload fine short enough] at weighed
    cases weighed
  · obtain ⟨message,refused,_⟩ := weigh_refused fine enough
    rw [refused] at weighed
    cases frees : freesItself loaded wanted <;> simp [frees] at weighed

/-- What a decision names is a choice of candidates that makes room. -/
theorem unload_room {ids : List String} (unload : budget.admit loaded wanted free = some (.Unload ids)) :
    ∃ chosen : List Loaded, ids = chosen.map Loaded.id ∧ chosen.Subperm (candidates loaded wanted) ∧
      RoomAfter budget loaded wanted free chosen := by
  have absent : ¬ IsLoaded loaded wanted := by
    intro is
    rw [admit_loaded is] at unload
    cases unload
  have weighed := weigh_of_admit absent unload (by simp)
  have fine : Calculable budget loaded wanted free := by
    by_contra beyond
    rw [weigh_panics beyond] at weighed
    cases weighed
  have short : ¬ RoomAfter budget loaded wanted free [] := by
    intro room
    rw [weigh_fits fine room] at weighed
    cases weighed
  by_cases enough : RoomAfter budget loaded wanted free (taken budget loaded wanted free)
  · rw [weigh_unload fine short enough] at weighed
    cases weighed
    exact ⟨_,rfl,(shortest_initial _ _ _ _).sublist.subperm,enough⟩
  · obtain ⟨message,refused,_⟩ := weigh_refused fine enough
    rw [refused] at weighed
    cases frees : freesItself loaded wanted <;> simp [frees] at weighed

/-- A candidate is loaded, on-demand, idle, and not the entry asked for. -/
theorem mem_candidates {entry : Loaded} : entry ∈ candidates loaded wanted ↔
    entry ∈ loaded ∧ entry.residency = .OnDemand ∧ entry.busy = false ∧ entry.id ≠ wanted.id := by
  rw [candidates_perm.mem_iff,List.mem_filter]
  simp only [isCandidate,Bool.and_eq_true,decide_eq_true_eq,Bool.not_eq_true',and_assoc]

theorem unload_names {ids : List String} (unload : budget.admit loaded wanted free = some (.Unload ids)) {id : String}
    (named : id ∈ ids) : ∃ entry ∈ loaded, entry.id = id := by
  obtain ⟨chosen,rfl,part,_⟩ := unload_room unload
  obtain ⟨entry,member,same⟩ := List.mem_map.mp named
  exact ⟨entry,(mem_candidates.mp (part.subset member)).1,same⟩

/-- Whatever is blocked would fit once something idle had gone: an on-demand
    entry that is busy now. -/
theorem frees_of_blocked {message : String} (blocked : budget.admit loaded wanted free = some (.Blocked message)) :
    freesItself loaded wanted = true := by
  have absent : ¬ IsLoaded loaded wanted := by
    intro is
    rw [admit_loaded is] at blocked
    cases blocked
  have weighed := weigh_of_admit absent blocked (by simp)
  have fine : Calculable budget loaded wanted free := by
    by_contra beyond
    rw [weigh_panics beyond] at weighed
    cases weighed
  have short : ¬ RoomAfter budget loaded wanted free [] := by
    intro room
    rw [weigh_fits fine room] at weighed
    cases weighed
  by_cases enough : RoomAfter budget loaded wanted free (taken budget loaded wanted free)
  · rw [weigh_unload fine short enough] at weighed
    cases weighed
  · obtain ⟨message,refused,_⟩ := weigh_refused fine enough
    rw [refused] at weighed
    cases frees : freesItself loaded wanted with
    | true => rfl
    | false => simp [frees] at weighed

end Maestro.Admission
