import Maestro.Text
import Mathlib.Data.List.Nodup

/-!
# What a catalog declares and what a machine measures

The entries the router serves, in the order of the catalog, and the figures a
machine reports about its device and about one process. Every figure is a
number of mebibytes.
-/
namespace Maestro

/-- Whether a model is held loaded or loaded when something asks for it. -/
inductive Residency
  | Resident
  | OnDemand
deriving DecidableEq, Repr

/-- One model the router can serve. -/
structure Entry where
  id : String
  path : String
  draftPath : Option String
  projectorPath : Option String
  contextSize : Nat
  residency : Residency
  memoryEstimateMib : Nat
  reasoningFormat : Option String
  reasoningEffort : Option String
  startupTimeoutSeconds : Nat
  runtime : Option String
  /-- The flags table, by key. -/
  flags : List (String × String)
deriving DecidableEq, Repr

/-- Whether an entry answers with text of its own, rather than with numbers. -/
def Entry.generates (self : Entry) : Bool :=
  !(["embeddings","embedding","reranking","rerank"].filterMap fun name => self.flags.lookup name).any fun value =>
    let value := String.ofList (Text.toAsciiLowercase (Text.trim value.toList))
    !(value = "false" || value = "0")

/-- What may be sent to an entry. -/
def Entry.accepts (self : Entry) : List String := if self.projectorPath.isSome then ["text","image"] else ["text"]

/-- The catalog: its entries, each under an identifier of its own. -/
structure Catalog where
  entries : List Entry
  distinct : (entries.map Entry.id).Nodup

/-- The entry with this identifier, if the catalog carries one. -/
def Catalog.entry (self : Catalog) (id : String) : Option Entry := self.entries.find? fun entry => entry.id = id

theorem Catalog.entry_mem {self : Catalog} {id : String} {entry : Entry} (found : self.entry id = some entry) :
    entry ∈ self.entries ∧ entry.id = id := by
  refine ⟨List.mem_of_find?_eq_some found, ?_⟩
  simpa using List.find?_some found

/-- An identifier names one entry. -/
theorem Catalog.eq_of_id {self : Catalog} {a b : Entry} (a_in : a ∈ self.entries) (b_in : b ∈ self.entries)
    (same : a.id = b.id) : a = b :=
  List.inj_on_of_nodup_map self.distinct a_in b_in same

theorem Catalog.entry_of_mem {self : Catalog} {entry : Entry} (known : entry ∈ self.entries) :
    self.entry entry.id = some entry := by
  have found : (self.entry entry.id).isSome = true := by
    rw [Catalog.entry,List.find?_isSome]
    exact ⟨entry,known,by simp⟩
  obtain ⟨other,is⟩ := Option.isSome_iff_exists.mp found
  obtain ⟨member,same⟩ := self.entry_mem is
  rw [is,self.eq_of_id member known same]

/-- What one machine's device memory looks like. -/
structure DeviceMemory where
  totalMib : Nat
  usedMib : Nat
deriving DecidableEq, Repr

/-- What is left for a model to be started into. -/
def DeviceMemory.freeMib (self : DeviceMemory) : Nat := self.totalMib - self.usedMib

/-- What one child was found to hold once it had loaded. Either side may be
    unknown. -/
structure Measurement where
  residentMib : Option Nat
  deviceMib : Option Nat
deriving DecidableEq, Repr

/-- The larger of the two sides, or none when neither is known. -/
def Measurement.largestMib (self : Measurement) : Option Nat :=
  match self.residentMib, self.deviceMib with
  | none, device => device
  | some resident, none => some resident
  | some resident, some device => some (max resident device)

end Maestro
