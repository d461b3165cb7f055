import Mathlib.Data.List.Nodup
import Mathlib.Data.List.Pairwise
import Mathlib.Data.List.Sort
import Mathlib.Order.Basic
import Mathlib.Data.String.Basic

/-!
# Maps as lists in the order of their keys

A map is the list of its keys with their values, the keys ascending, so that
two maps that agree are one list. Setting a key keeps the order.
-/
namespace Maestro.Keyed
variable {κ ν : Type} [LinearOrder κ]

/-- Every key of the list is below the ones behind it. -/
def Ascending (map : List (κ × ν)) : Prop := (map.map Prod.fst).Pairwise (· < ·)

instance (map : List (κ × ν)) : Decidable (Ascending map) :=
  inferInstanceAs (Decidable ((map.map Prod.fst).Pairwise (· < ·)))

/-- Sets a key. -/
def insert (key : κ) (value : ν) : List (κ × ν) → List (κ × ν)
  | [] => [(key,value)]
  | (other,held) :: rest =>
    if key < other then (key,value) :: (other,held) :: rest
    else if key = other then (key,value) :: rest
    else (other,held) :: insert key value rest

/-- Sets the keys of another map. -/
def extend (map more : List (κ × ν)) : List (κ × ν) := more.foldl (fun map pair => insert pair.1 pair.2 map) map

example : extend [("a",1),("c",1)] [("b",2),("c",2)] = [("a",1),("b",2),("c",2)] := by decide

/-! ## Looking up -/

@[simp] theorem lookup_cons (first key : κ) (held : ν) (map : List (κ × ν)) :
    ((first,held) :: map).lookup key = if key = first then some held else map.lookup key := by
  rw [List.lookup_cons]
  split_ifs with same
  · subst same
    rw [beq_self_eq_true]
  · rw [beq_eq_false_iff_ne.mpr same]

theorem mem_of_lookup {map : List (κ × ν)} {key : κ} {value : ν} (is : map.lookup key = some value) :
    (key,value) ∈ map := by
  induction map with
  | nil => cases is
  | cons pair map ih =>
    rw [lookup_cons] at is
    split_ifs at is with same
    · cases is
      subst same
      exact List.mem_cons_self
    · exact List.mem_cons_of_mem _ (ih is)

/-- Where every key occurs once, it leads to its value. -/
theorem lookup_of_mem {map : List (κ × ν)} (ascending : Ascending map) {key : κ} {value : ν} (inside : (key,value) ∈ map) :
    map.lookup key = some value := by
  induction map with
  | nil => cases inside
  | cons pair map ih =>
    obtain ⟨other,held⟩ := pair
    obtain ⟨above,ascending⟩ := List.pairwise_cons.mp ascending
    rw [lookup_cons]
    rcases List.mem_cons.mp inside with here | later
    · cases here
      rw [if_pos rfl]
    · have different : key ≠ other := by
        rintro rfl
        exact lt_irrefl key (above key (List.mem_map.mpr ⟨(key,value),later,rfl⟩))
      rw [if_neg different]
      exact ih ascending later

theorem Ascending.distinct {map : List (κ × ν)} (ascending : Ascending map) : (map.map Prod.fst).Nodup :=
  ascending.imp ne_of_lt

/-! ## Setting -/

theorem keys_insert {map : List (κ × ν)} {key other : κ} {value : ν} :
    other ∈ (insert key value map).map Prod.fst ↔ other = key ∨ other ∈ map.map Prod.fst := by
  induction map with
  | nil => simp [insert]
  | cons pair map ih =>
    obtain ⟨first,held⟩ := pair
    rw [insert]
    split_ifs with below same
    · simp
    · subst same
      simp
    · simp only [List.map_cons,List.mem_cons,ih]
      exact or_left_comm

theorem insert_ascending {map : List (κ × ν)} (ascending : Ascending map) (key : κ) (value : ν) :
    Ascending (insert key value map) := by
  induction map with
  | nil => exact List.pairwise_singleton _ _
  | cons pair map ih =>
    obtain ⟨first,held⟩ := pair
    obtain ⟨above,rest⟩ := List.pairwise_cons.mp ascending
    rw [insert]
    split_ifs with below same
    · refine List.pairwise_cons.mpr ⟨?_,ascending⟩
      intro other inside
      rcases List.mem_cons.mp inside with rfl | later
      · exact below
      · exact lt_trans below (above other later)
    · subst same
      exact ascending
    · refine List.pairwise_cons.mpr ⟨?_,ih rest⟩
      intro other inside
      rcases keys_insert.mp inside with rfl | later
      · exact lt_of_le_of_ne (not_lt.mp below) (Ne.symm same)
      · exact above other later

theorem lookup_insert (map : List (κ × ν)) (key other : κ) (value : ν) :
    (insert key value map).lookup other = if other = key then some value else map.lookup other := by
  induction map with
  | nil => exact lookup_cons key other value []
  | cons pair map ih =>
    obtain ⟨first,held⟩ := pair
    rw [insert]
    by_cases below : key < first
    · rw [if_pos below]
      exact lookup_cons key other value _
    rw [if_neg below]
    by_cases same : key = first
    · subst same
      rw [if_pos rfl,lookup_cons,lookup_cons]
      split_ifs <;> rfl
    · rw [if_neg same,lookup_cons,lookup_cons,ih]
      by_cases here : other = first
      · have different : other ≠ key := fun at_key => same (at_key ▸ here)
        rw [if_pos here,if_neg different,if_pos here]
      · rw [if_neg here,if_neg here]

theorem extend_ascending {map : List (κ × ν)} (ascending : Ascending map) (more : List (κ × ν)) :
    Ascending (extend map more) := by
  induction more generalizing map with
  | nil => exact ascending
  | cons pair more ih => exact ih (insert_ascending ascending pair.1 pair.2)

/-- The keys of the further map win. -/
theorem lookup_extend (map : List (κ × ν)) {more : List (κ × ν)} (ascending : Ascending more) (key : κ) :
    (extend map more).lookup key = (more.lookup key).or (map.lookup key) := by
  induction more generalizing map with
  | nil => rfl
  | cons pair more ih =>
    obtain ⟨first,held⟩ := pair
    obtain ⟨above,rest⟩ := List.pairwise_cons.mp ascending
    have whole : extend map ((first,held) :: more) = extend (insert first held map) more := rfl
    rw [whole,ih _ rest,lookup_insert,lookup_cons]
    split_ifs with here
    · subst here
      have fresh : more.lookup key = none := by
        cases is : more.lookup key with
        | none => rfl
        | some other =>
          exact absurd (above key (List.mem_map.mpr ⟨_,mem_of_lookup is,rfl⟩)) (lt_irrefl key)
      rw [fresh]
      rfl
    · rfl

/-! ## What a map holds -/

theorem mem_insert {map : List (κ × ν)} {key : κ} {value : ν} {pair : κ × ν} (inside : pair ∈ insert key value map) :
    pair = (key,value) ∨ pair ∈ map := by
  induction map with
  | nil => exact .inl (List.mem_singleton.mp inside)
  | cons held map ih =>
    rw [insert] at inside
    split_ifs at inside with below same
    · exact List.mem_cons.mp inside
    · rcases List.mem_cons.mp inside with here | later
      · exact .inl here
      · exact .inr (List.mem_cons_of_mem _ later)
    · rcases List.mem_cons.mp inside with rfl | later
      · exact .inr List.mem_cons_self
      · exact (ih later).imp_right (List.mem_cons_of_mem _)

theorem mem_extend {map more : List (κ × ν)} {pair : κ × ν} (inside : pair ∈ extend map more) : pair ∈ more ∨ pair ∈ map := by
  induction more generalizing map with
  | nil => exact .inr inside
  | cons held more ih =>
    rcases ih inside with later | before
    · exact .inl (List.mem_cons_of_mem _ later)
    · rcases mem_insert before with rfl | before
      · exact .inl List.mem_cons_self
      · exact .inr before

theorem mem_iff_lookup {map : List (κ × ν)} (ascending : Ascending map) (key : κ) (value : ν) :
    (key,value) ∈ map ↔ map.lookup key = some value := ⟨lookup_of_mem ascending,mem_of_lookup⟩

/-- Maps hold the same of what is asked for where they lead to the same. -/
theorem filter_congr {map other : List (κ × ν)} (ascending : Ascending map) (ascending' : Ascending other) {p : κ × ν → Bool}
    (same : ∀ key value, p (key,value) = true → (map.lookup key = some value ↔ other.lookup key = some value)) :
    map.filter p = other.filter p := by
  have : Std.Irrefl fun a b : κ × ν => a.1 < b.1 := ⟨fun a => lt_irrefl a.1⟩
  have : Std.Antisymm fun a b : κ × ν => a.1 < b.1 := ⟨fun a b below above => absurd below (lt_asymm above)⟩
  have sorted {map : List (κ × ν)} (ascending : Ascending map) : (map.filter p).Pairwise fun a b => a.1 < b.1 :=
    (List.pairwise_map.mp ascending).filter p
  refine List.Pairwise.eq_of_mem_iff (sorted ascending) (sorted ascending') fun ⟨key,value⟩ => ?_
  rw [List.mem_filter,List.mem_filter,mem_iff_lookup ascending,mem_iff_lookup ascending']
  exact and_congr_left (same key value)

/-- Maps that lead to the same are the same. -/
theorem eq_of_lookup {map other : List (κ × ν)} (ascending : Ascending map) (ascending' : Ascending other)
    (same : ∀ key, map.lookup key = other.lookup key) : map = other := by
  have whole := filter_congr ascending ascending' (p := fun _ => true) fun key value _ => by rw [same key]
  rwa [List.filter_true,List.filter_true] at whole

/-- A map set on top of nothing is the map. -/
theorem extend_nil {map : List (κ × ν)} (ascending : Ascending map) : extend [] map = map := by
  have empty : Ascending ([] : List (κ × ν)) := List.Pairwise.nil
  refine eq_of_lookup (extend_ascending empty map) ascending fun key => ?_
  rw [lookup_extend [] ascending,List.lookup_nil,Option.or_none]

/-- What a map holds already it need not be set on top of. -/
theorem extend_covered {map more : List (κ × ν)} (ascending : Ascending map) (ascending' : Ascending more)
    (covered : ∀ key, more.lookup key = none → map.lookup key = none) : extend map more = more := by
  refine eq_of_lookup (extend_ascending ascending more) ascending' fun key => ?_
  rw [lookup_extend map ascending']
  cases is : more.lookup key with
  | none => rw [covered key is,Option.or_none]
  | some value => rfl

/-! ## Keys that may be left out -/

/-- The keys that have a value. -/
def present (fields : List (κ × Option ν)) : List (κ × ν) := fields.filterMap fun field => field.2.map fun value => (field.1,value)

omit [LinearOrder κ] in
theorem mem_present {fields : List (κ × Option ν)} {key : κ} {value : ν} :
    (key,value) ∈ present fields ↔ (key,some value) ∈ fields := by
  rw [present,List.mem_filterMap]
  constructor
  · rintro ⟨⟨other,held⟩,inside,is⟩
    obtain ⟨_,rfl,is⟩ := Option.map_eq_some_iff.mp is
    cases is
    exact inside
  · intro inside
    exact ⟨_,inside,rfl⟩

theorem present_ascending {fields : List (κ × Option ν)} (ascending : Ascending fields) : Ascending (present fields) := by
  refine ascending.sublist ?_
  induction fields with
  | nil => exact List.Sublist.slnil
  | cons field fields ih =>
    obtain ⟨key,value⟩ := field
    have rest := ih (List.pairwise_cons.mp ascending).2
    cases value with
    | none => exact rest.cons key
    | some value => exact rest.cons_cons key

theorem lookup_present {fields : List (κ × Option ν)} (ascending : Ascending fields) (key : κ) :
    (present fields).lookup key = (fields.lookup key).join := by
  refine Option.ext fun value => ?_
  rw [← mem_iff_lookup (present_ascending ascending),mem_present,mem_iff_lookup ascending,Option.join_eq_some_iff]

end Maestro.Keyed
