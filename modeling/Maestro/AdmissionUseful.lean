import Maestro.AdmissionWaiting

/-!
# What each unloading is for

Candidates are taken by age while either side is short, and an entry may hold
much of one side and nothing of the other. `Helps` is that unloading an entry
gives something back on a side that is short when its turn comes.
-/
namespace Maestro.Admission
open Maestro.Selection

section Useful
variable (budget : Budget) (loaded : List Loaded) (wanted : Wanted) (free : Option ℕ)

/-- Once `gone` is unloaded the ledger is still short. -/
def LedgerShort (gone : List Loaded) : Prop := ∃ limit, budget.limitMib = some limit ∧
  limit < (loaded.map Loaded.costMib).sum - (gone.map Loaded.costMib).sum + wanted.costMib

/-- Once `gone` is unloaded the device is still short. -/
def DeviceShort (gone : List Loaded) : Prop := ∃ f, free = some f ∧ f + (gone.map Loaded.deviceMib).sum < wanted.deviceMib

/-- Unloading `entry` after `gone` gives something back on a side still short. -/
def Helps (gone : List Loaded) (entry : Loaded) : Prop :=
  (LedgerShort budget loaded wanted gone ∧ 0 < entry.costMib) ∨ (DeviceShort wanted free gone ∧ 0 < entry.deviceMib)

/-- Nothing is unloaded for nothing: what is named are the first candidates,
    and each one helps at its turn. -/
def UnloadsUsefully : Prop := ∀ ids, budget.admit loaded wanted free = some (.Unload ids) → ∀ k, ∀ id, ids[k]? = some id →
  ∃ entry, (candidates loaded wanted)[k]? = some entry ∧ entry.id = id ∧
    Helps budget loaded wanted free ((candidates loaded wanted).take k) entry

/-- The call is weighed in range, and unloading every candidate makes room. -/
structure Unloads : Prop where
  absent : ¬ IsLoaded loaded wanted
  fine : Calculable budget loaded wanted free
  enough : RoomAfter budget loaded wanted free (candidates loaded wanted)

/-- The entry is on none of the sides that are short at its turn: off the device
    while only the device is short, without cost while only the ledger is, and
    empty while both are. -/
def Fruitless (gone : List Loaded) (entry : Loaded) : Prop :=
  (entry.deviceMib = 0 ∧ DeviceShort wanted free gone ∧ ¬ LedgerShort budget loaded wanted gone) ∨
  (entry.costMib = 0 ∧ LedgerShort budget loaded wanted gone ∧ ¬ DeviceShort wanted free gone) ∨
  (entry.costMib = 0 ∧ entry.deviceMib = 0 ∧ LedgerShort budget loaded wanted gone ∧ DeviceShort wanted free gone)

variable {budget loaded wanted free} {gone : List Loaded} {entry : Loaded}

theorem not_roomAfter_iff : ¬ RoomAfter budget loaded wanted free gone ↔
    LedgerShort budget loaded wanted gone ∨ DeviceShort wanted free gone := by
  simp only [RoomAfter,not_and_or,not_forall,exists_prop,Nat.not_le,LedgerShort,DeviceShort]

theorem fruitless_iff : Fruitless budget loaded wanted free gone entry ↔
    ¬ RoomAfter budget loaded wanted free gone ∧ ¬ Helps budget loaded wanted free gone entry := by
  rw [not_roomAfter_iff]
  simp only [Fruitless,Helps,Nat.pos_iff_ne_zero]
  tauto

theorem not_too_large_of_room (room : RoomAfter budget loaded wanted free gone) : ¬ TooLarge budget wanted :=
  fun large => no_room_of_too_large large gone room

/-- What a call names, where it names anything. -/
theorem admit_unloads (unloads : Unloads budget loaded wanted free) (short : ¬ RoomAfter budget loaded wanted free []) :
    budget.admit loaded wanted free = some (.Unload ((taken budget loaded wanted free).map Loaded.id)) := by
  rw [admit_weigh free unloads.absent (not_too_large_of_room unloads.enough)]
  exact weigh_unload unloads.fine short (enough_iff.mpr unloads.enough)

theorem unloads_of_admit {ids : List String} (names : budget.admit loaded wanted free = some (.Unload ids)) :
    Unloads budget loaded wanted free ∧ ids = (taken budget loaded wanted free).map Loaded.id := by
  have absent : ¬ IsLoaded loaded wanted := by
    intro already
    rw [admit_loaded already] at names
    cases names
  have possible : ¬ TooLarge budget wanted := by
    rintro ⟨limit,is,large⟩
    rw [admit_too_large free absent is large] at names
    cases names
  obtain ⟨fine,short,enough⟩ := (unload_iff absent possible).mp ⟨ids,names⟩
  have unloads : Unloads budget loaded wanted free := ⟨absent,fine,enough⟩
  rw [admit_unloads unloads short] at names
  cases names
  exact ⟨unloads,rfl⟩

/-- The candidate at `k` is taken exactly when the ones before it leave no room. -/
theorem lt_taken_iff {k : ℕ} : k < (taken budget loaded wanted free).length ↔
    k < (candidates loaded wanted).length ∧ ¬ RoomAfter budget loaded wanted free ((candidates loaded wanted).take k) := by
  have monotone := fits_mono (roomOf budget loaded free) wanted
  rw [taken,lt_shortest_iff footprint monotone,zero_add,← fits_iff_roomAfter,Bool.not_eq_true]

theorem taken_at {k : ℕ} (before : k < (taken budget loaded wanted free).length) :
    (taken budget loaded wanted free)[k]? = (candidates loaded wanted)[k]? := by
  have initial : taken budget loaded wanted free <+: candidates loaded wanted := shortest_initial _ _ _ _
  obtain ⟨rest,whole⟩ := initial
  rw [← whole,List.getElem?_append_left before]

/-- Nothing is unloaded for nothing exactly where no candidate whose turn comes
    is empty on every side that is short then. -/
theorem unloads_usefully_iff : UnloadsUsefully budget loaded wanted free ↔
    ¬ (Unloads budget loaded wanted free ∧ ∃ k entry, (candidates loaded wanted)[k]? = some entry ∧
      Fruitless budget loaded wanted free ((candidates loaded wanted).take k) entry) := by
  constructor
  · rintro usefully ⟨unloads,k,entry,at_k,fruitless⟩
    obtain ⟨short,helpless⟩ := fruitless_iff.mp fruitless
    have first : ¬ RoomAfter budget loaded wanted free [] := fun now => short (now.mono List.nil_subperm)
    have inside : k < (candidates loaded wanted).length := (List.getElem?_eq_some_iff.mp at_k).1
    have turn : k < (taken budget loaded wanted free).length := lt_taken_iff.mpr ⟨inside,short⟩
    have named : ((taken budget loaded wanted free).map Loaded.id)[k]? = some entry.id := by
      rw [List.getElem?_map,taken_at turn,at_k,Option.map_some]
    obtain ⟨other,is,_,helps⟩ := usefully _ (admit_unloads unloads first) k entry.id named
    rw [at_k] at is
    cases is
    exact helpless helps
  · intro none ids names k id named
    obtain ⟨unloads,rfl⟩ := unloads_of_admit names
    have turn : k < (taken budget loaded wanted free).length := by
      simpa using (List.getElem?_eq_some_iff.mp named).1
    obtain ⟨inside,short⟩ := lt_taken_iff.mp turn
    have at_k := List.getElem?_eq_getElem inside
    rw [List.getElem?_map,taken_at turn,at_k] at named
    refine ⟨_,at_k,Option.some.inj named,?_⟩
    by_contra helpless
    exact none ⟨unloads,k,_,at_k,fruitless_iff.mpr ⟨short,helpless⟩⟩

/-- A model pinned to the processor is unloaded to make room on the device. -/
theorem pinned_unloaded_for_nothing :
    let pinned : Loaded := ⟨"pinned",8,0,.OnDemand,false,0⟩
    let idle : Loaded := ⟨"idle",6,6,.OnDemand,false,1⟩
    Budget.admit ⟨none⟩ [pinned,idle] ⟨"wanted",5,5⟩ (some 1) = some (.Unload ["pinned","idle"]) ∧
      ¬ UnloadsUsefully ⟨none⟩ [pinned,idle] ⟨"wanted",5,5⟩ (some 1) := by
  intro pinned idle
  have names : Budget.admit ⟨none⟩ [pinned,idle] ⟨"wanted",5,5⟩ (some 1) = some (.Unload ["pinned","idle"]) := by decide
  refine ⟨names,fun usefully => ?_⟩
  obtain ⟨entry,is,_,helps⟩ := usefully _ names 0 "pinned" rfl
  have first : entry = pinned := by
    have coldest : (candidates [pinned,idle] ⟨"wanted",5,5⟩)[0]? = some pinned := by decide
    rw [coldest] at is
    exact (Option.some.inj is).symm
  subst first
  rcases helps with ⟨⟨limit,is,_⟩,_⟩ | ⟨_,more⟩
  · cases is
  · exact absurd more (by decide)

end Useful

end Maestro.Admission
