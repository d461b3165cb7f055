import Maestro.Keyed

/-!
# Configuration as tables of values

What a TOML text says, as far as its reader tells it: tables with their keys in
ascending order, each key once.
-/
namespace Maestro.Toml

/-- A value, of any of the kinds there are. -/
inductive Value
  | String (text : String)
  | Integer (number : ℤ)
  | Float (bits : BitVec 64)
  | Boolean (value : Bool)
  | Datetime (text : String)
  | Array (values : List Value)
  | Table (pairs : List (String × Value))

/-- The keys of a table, each with its value. -/
abbrev Pairs := List (String × Value)

def asStr : Value → Option String
  | .String text => some text
  | _ => none

def asInteger : Value → Option ℤ
  | .Integer number => some number
  | _ => none

def asTable : Value → Option Pairs
  | .Table pairs => some pairs
  | _ => none

/-- The value under a key. -/
def get (table : Pairs) (key : String) : Option Value := table.lookup key

def keys (table : Pairs) : List String := table.map Prod.fst

/-- Every table within a value has its keys in ascending order. -/
inductive Ordered : Value → Prop
  | String (text : String) : Ordered (.String text)
  | Integer (number : ℤ) : Ordered (.Integer number)
  | Float (bits : BitVec 64) : Ordered (.Float bits)
  | Boolean (value : Bool) : Ordered (.Boolean value)
  | Datetime (text : String) : Ordered (.Datetime text)
  | Array {values : List Value} : (∀ value ∈ values, Ordered value) → Ordered (.Array values)
  | Table {pairs : Pairs} : Keyed.Ascending pairs → (∀ pair ∈ pairs, Ordered pair.2) → Ordered (.Table pairs)

/-- What a whole text says. -/
structure Document where
  table : Pairs
  ordered : Ordered (.Table table)

/-! ## Keys and values -/

theorem asTable_eq_some {value : Value} {table : Pairs} : asTable value = some table ↔ value = .Table table := by
  cases value <;> simp [asTable]

theorem Ordered.ascending {table : Pairs} (ordered : Ordered (.Table table)) : Keyed.Ascending table := by
  cases ordered with
  | Table ascending _ => exact ascending

/-- What an ordered table holds is ordered. -/
theorem Ordered.get {table : Pairs} (ordered : Ordered (.Table table)) {key} {value : Value}
    (is : get table key = some value) : Ordered value := by
  cases ordered with
  | Table _ all => exact all _ (Keyed.mem_of_lookup is)

end Maestro.Toml
