import Maestro.Effects
import Mathlib.Data.List.ReduceOption

/-!
# What the occupied slots cost together

The ledger of a table of slots, what happens to it when slots are emptied, and
what a decision taken on a snapshot says about it: the snapshot may have been
read while slots were being emptied, so it counts at least what is there.
-/
namespace Maestro.Threads
open Slots (Loaded Slot Table)
open Admission (Decision RoomAfter)

/-- What admission charges an entry's child. -/
def charge (entry : Entry) (held : Loaded Child) : ℕ := (Admission.Loaded.of entry false 0 held.measured).costMib

def slotCharge (entry : Entry) (slot : Slot Child) : ℕ := slot.elim 0 (charge entry)

/-- What the slots cost together, those of the named entries left out. -/
def ledger (entries : List Entry) (slots : Table Child) (named : List String) : ℕ :=
  (entries.map fun entry => if entry.id ∈ named then 0 else slotCharge entry (slots entry.id)).sum

/-- Every slot is empty or holds the child it held, measured the same. -/
def Shrinks (before after : Table Child) : Prop :=
  ∀ id held, after id = some held → ∃ old, before id = some old ∧ old.child = held.child ∧ old.measured = held.measured

theorem charge_ge (entry : Entry) (held : Loaded Child) : entry.memoryEstimateMib ≤ charge entry held :=
  Admission.Loaded.estimate_le_cost ..

theorem charge_congr (entry : Entry) {a b : Loaded Child} (same : a.measured = b.measured) : charge entry a = charge entry b := by
  rw [charge,same,charge]

/-! ## Slots that are emptied -/

section Tables
variable {a b c : Table Child} {entries : List Entry} {named : List String}

theorem Shrinks.refl (slots : Table Child) : Shrinks slots slots := fun _ held is => ⟨held,is,rfl,rfl⟩

theorem Shrinks.empty (shrinks : Shrinks a b) {id : String} (empty : a id = none) : b id = none := by
  cases is : b id with
  | none => rfl
  | some held =>
    obtain ⟨old,was,_⟩ := shrinks id held is
    rw [empty] at was
    cases was

theorem Shrinks.update_none (slots : Table Child) (id : String) : Shrinks slots (Function.update slots id none) := by
  intro other held is
  by_cases this : other = id
  · subst this
    rw [Function.update_self] at is
    cases is
  · rw [Function.update_of_ne this] at is
    exact ⟨held,is,rfl,rfl⟩

theorem Stamped.shrinks (stamped : Stamped a b) : Shrinks a b := by
  intro id held is
  have same := stamped id
  rw [is,Option.map_some] at same
  obtain ⟨old,was,both⟩ := Option.map_eq_some_iff.mp same.symm
  exact ⟨old,was,congrArg Prod.fst both,congrArg Prod.snd both⟩

theorem slotCharge_le (shrinks : Shrinks a b) (entry : Entry) (id : String) :
    slotCharge entry (b id) ≤ slotCharge entry (a id) := by
  cases is : b id with
  | none => exact Nat.zero_le _
  | some held =>
    obtain ⟨old,was,_,same⟩ := shrinks id held is
    rw [was]
    exact (charge_congr entry same.symm).le

theorem ledger_le (shrinks : Shrinks a b) : ledger entries b named ≤ ledger entries a named := by
  refine List.sum_le_sum fun entry _ => ?_
  split_ifs
  · exact le_rfl
  · exact slotCharge_le shrinks entry entry.id

/-- A named slot that is empty may go unnamed. -/
theorem ledger_unnamed {id : String} (empty : a id = none) : ledger entries a named ≤ ledger entries a (id :: named) := by
  refine List.sum_le_sum fun entry _ => ?_
  by_cases this : entry.id = id
  · rw [this,empty]
    split_ifs <;> exact le_rfl
  · by_cases other : entry.id ∈ named <;> simp [other,this]

end Tables

/-! ## A snapshot and the decision taken on it -/

/-- What a snapshot says of one slot, which was read some time ago: if there is
    still a child in it, the snapshot counts it at its cost. The slot of the
    entry that is asked for was empty. -/
structure Recorded (slots : Table Child) (own : String) (entry : Entry) (record : Option Admission.Loaded) : Prop where
  named : ∀ subject, record = some subject → subject.id = entry.id ∧ entry.id ≠ own
  counted : ∀ held, slots entry.id = some held → ∃ subject, record = some subject ∧ subject.costMib = charge entry held

/-- What a snapshot of these entries, read one after another, has seen. -/
def Seen (slots : Table Child) (own : String) (entries : List Entry) (seen : List Admission.Loaded) : Prop :=
  ∃ records : List (Option Admission.Loaded), seen = records.reduceOption ∧ List.Forall₂ (Recorded slots own) entries records

section Snapshot
variable {slots : Table Child} {own : String} {entries : List Entry} {seen : List Admission.Loaded}

theorem Seen.nil : Seen slots own [] [] := ⟨[],rfl,.nil⟩

theorem Seen.shrinks {after : Table Child} (shrinks : Shrinks slots after) (is : Seen slots own entries seen) :
    Seen after own entries seen := by
  obtain ⟨records,all,each⟩ := is
  refine ⟨records,all,each.imp fun entry record recorded => ⟨recorded.named,fun held there => ?_⟩⟩
  obtain ⟨old,was,_,same⟩ := shrinks _ held there
  rw [charge_congr entry same.symm]
  exact recorded.counted old was

/-- Reading one more slot, under its lock. -/
theorem Seen.snoc {Tid : Type} {self : Shared Tid} {entry : Entry} (is : Seen self.slots own entries seen)
    (empty : self.slots own = none) : Seen self.slots own (entries ++ [entry]) (seen ++ self.seen entry) := by
  obtain ⟨records,rfl,each⟩ := is
  refine ⟨records ++ [(self.slots entry.id).map fun held =>
    Admission.Loaded.of entry (Slots.busy self.strong held.child) held.lastUsed held.measured],?_,?_⟩
  · rw [List.reduceOption_append,List.reduceOption_singleton]
    rfl
  · refine List.rel_append each (.cons ⟨?_,?_⟩ .nil)
    · intro subject is
      obtain ⟨held,there,rfl⟩ := Option.map_eq_some_iff.mp is
      refine ⟨rfl,fun same => ?_⟩
      rw [same,empty] at there
      cases there
    · intro held there
      refine ⟨Admission.Loaded.of entry (Slots.busy self.strong held.child) held.lastUsed held.measured,?_,rfl⟩
      rw [there]
      rfl

theorem Seen.not_loaded (is : Seen slots own entries seen) {wanted : Admission.Wanted} (same : wanted.id = own) :
    ¬ Admission.IsLoaded seen wanted := by
  rintro ⟨subject,member,named⟩
  obtain ⟨records,rfl,each⟩ := is
  rw [List.reduceOption_mem_iff] at member
  obtain ⟨i,at_i⟩ := List.mem_iff_getElem?.mp member
  have within : i < entries.length := by
    rw [each.length_eq]
    exact (List.getElem?_eq_some_iff.mp at_i).1
  obtain ⟨inside,is⟩ := List.getElem?_eq_some_iff.mp at_i
  have recorded := each.get within inside
  obtain ⟨here,apart⟩ := recorded.named subject is
  exact apart (here.symm.trans (named.trans same))

/-- What is in the slots and not named costs at most what the snapshot counted
    and did not name. -/
theorem Seen.ledger_le (is : Seen slots own entries seen) (named : List String) :
    ledger entries slots named ≤ (seen.map fun subject => if subject.id ∈ named then 0 else subject.costMib).sum := by
  obtain ⟨records,rfl,each⟩ := is
  induction each with
  | nil => exact le_rfl
  | @cons entry record entries records recorded _ ih =>
    have here : (if entry.id ∈ named then 0 else slotCharge entry (slots entry.id)) ≤
        ([record].reduceOption.map fun subject => if subject.id ∈ named then 0 else subject.costMib).sum := by
      split_ifs with is
      · exact Nat.zero_le _
      · cases there : slots entry.id with
        | none => exact Nat.zero_le _
        | some held =>
          obtain ⟨subject,rfl,cost⟩ := recorded.counted held there
          have same := (recorded.named subject rfl).1
          simp [List.reduceOption,same,is,cost,slotCharge]
    have apart : (record :: records).reduceOption = [record].reduceOption ++ records.reduceOption := by
      rw [← List.reduceOption_append]
      rfl
    rw [ledger,List.map_cons,List.sum_cons,apart,List.map_append,List.sum_append]
    exact Nat.add_le_add here ih

/-- What is unnamed in a list beside a choice of the named. -/
theorem unnamed_add_chosen_le {chosen : List Admission.Loaded} (part : chosen.Subperm seen) :
    (seen.map fun subject => if subject.id ∈ chosen.map Admission.Loaded.id then 0 else subject.costMib).sum +
      (chosen.map Admission.Loaded.costMib).sum ≤ (seen.map Admission.Loaded.costMib).sum := by
  obtain ⟨ordered,same,inside⟩ := part
  obtain ⟨rest,apart⟩ := inside.exists_perm_append
  have perm : seen.Perm (chosen ++ rest) := apart.trans (same.append_right rest)
  rw [(perm.map _).sum_eq,(perm.map Admission.Loaded.costMib).sum_eq,List.map_append,List.map_append,List.sum_append,
    List.sum_append]
  have named : (chosen.map fun subject => if subject.id ∈ chosen.map Admission.Loaded.id then 0 else subject.costMib).sum = 0 := by
    refine List.sum_eq_zero fun x member => ?_
    obtain ⟨subject,inside,rfl⟩ := List.mem_map.mp member
    exact if_pos (List.mem_map_of_mem inside)
  have others : (rest.map fun subject => if subject.id ∈ chosen.map Admission.Loaded.id then 0 else subject.costMib).sum ≤
      (rest.map Admission.Loaded.costMib).sum := by
    refine List.sum_le_sum fun subject _ => ?_
    split_ifs
    · exact Nat.zero_le _
    · exact le_rfl
  omega

end Snapshot

/-! ## Room in the ledger -/

/-- With the named entries gone there is room for the entry's estimate. -/
def Room (config : Config) (entry : Entry) (slots : Table Child) (named : List String) : Prop :=
  ∀ limit, config.budget.limitMib = some limit →
    ledger config.catalog.entries slots named + entry.memoryEstimateMib ≤ limit

section Decisions
variable {config : Config} {entry : Entry} {slots : Table Child} {seen : List Admission.Loaded} {free : Option ℕ}

theorem Room.shrinks {named : List String} {after : Table Child} (shrinks : Shrinks slots after)
    (room : Room config entry slots named) : Room config entry after named :=
  fun limit is => (Nat.add_le_add_right (ledger_le shrinks) _).trans (room limit is)

theorem Room.unnamed {named : List String} {id : String} (empty : slots id = none)
    (room : Room config entry slots (id :: named)) : Room config entry slots named :=
  fun limit is => (Nat.add_le_add_right (ledger_unnamed empty) _).trans (room limit is)

/-- What makes room in the snapshot makes room in the slots. -/
theorem room_of_roomAfter (is : Seen slots entry.id config.catalog.entries seen) {chosen : List Admission.Loaded}
    (part : chosen.Subperm seen) (room : RoomAfter config.budget seen (.of entry) free chosen) :
    Room config entry slots (chosen.map Admission.Loaded.id) := by
  intro limit some_limit
  have ledger := room.1 limit some_limit
  have counted := is.ledger_le (chosen.map Admission.Loaded.id)
  have beside := unnamed_add_chosen_le part
  change _ + (Admission.Wanted.of entry).costMib ≤ limit
  omega

theorem room_of_fits (is : Seen slots entry.id config.catalog.entries seen)
    (fits : config.budget.admit seen (.of entry) free = some .Fits) : Room config entry slots [] :=
  room_of_roomAfter is List.nil_subperm (Admission.fits_room (is.not_loaded rfl) fits)

theorem room_of_unload (is : Seen slots entry.id config.catalog.entries seen) {ids : List String}
    (unload : config.budget.admit seen (.of entry) free = some (.Unload ids)) : Room config entry slots ids := by
  obtain ⟨chosen,rfl,part,room⟩ := Admission.unload_room unload
  have inside : chosen.Subperm seen :=
    part.trans (Admission.candidates_perm.subperm.trans (List.filter_sublist ..).subperm)
  exact room_of_roomAfter is inside room

end Decisions
end Maestro.Threads
