import Maestro.Discover

/-!
# Reading a catalog, from its text alone and against its models root

The text alone cannot derive an estimate, so an entry that declares none is
refused. Against a root the estimate is derived from the files, and every model
file beside the catalog's own becomes an entry too.
-/
namespace Maestro.Resolve
open Toml (Document)
open Fields (problem)
open Read (Defaults Drafts Report scopeOf)
open Estimate (derive)

/-! ## What is read -/

/-- Where an entry's memory estimate came from. -/
inductive EstimateSource
  | Declared
  | Derived
deriving DecidableEq, Repr

/-- Every model the router can serve, as a reading has it: which entries have a
    derived estimate, and which came from the root. -/
structure Parsed where
  version : ℕ
  entries : List Entry
  derived : List String
  discovered : List String
deriving DecidableEq, Repr

section
variable (self : Parsed) (id : String)

/-- The entry with this identifier, if the catalog carries one. -/
def Parsed.entry : Option Entry := self.entries.find? fun entry => entry.id = id

/-- Where this entry's estimate came from. -/
def Parsed.estimateSource : Option EstimateSource :=
  (self.entry id).map fun _ => if id ∈ self.derived then .Derived else .Declared

/-- Whether this entry was found under the models root. -/
def Parsed.isDiscovered : Bool := id ∈ self.discovered

end

/-- A catalog read against a models root, and what there is to say about it. -/
structure Reading where
  catalog : Parsed
  notes : List String
  declared : ℕ
  root : OsStr
deriving DecidableEq, Repr

/-- How many entries were found under the root. -/
def Reading.discovered (self : Reading) : ℕ := self.catalog.entries.length - self.declared

/-- One line saying where the entries came from. -/
def Reading.summary (self : Reading) : String :=
  s!"{self.declared} entries from the catalog, {self.discovered} discovered under {Path.display self.root}"

/-- What settling every entry produces besides the entries. -/
structure Ledger where
  notes : List String
  problems : List String
  derived : List String
deriving DecidableEq, Repr

/-! ## From the text alone -/

/-- Reads a catalog, reporting everything wrong with it. -/
def parse (toml : String → Except String Document) (text : String) : Except Report Parsed :=
  match Read.drafts toml text with
  | .error report => .error report
  | .ok drafts =>
    let problems := drafts.problems ++ drafts.undeclared.map fun id =>
      (problem (scopeOf id) "memory_estimate_mib" "is required, and no default supplies it").text
    if problems = [] then .ok ⟨drafts.version.getD 0,drafts.entries,[],[]⟩ else .error ⟨problems⟩

/-! ## Against the models root -/

section Root
variable (capacity : ℕ) (disk : Disk) (root : OsStr)

/-- One entry with its estimate settled, or a problem on the ledger. -/
def settle (entry : Entry) (declared : Bool) (ledger : Ledger) : Option (Option Entry × Ledger) :=
  match derive capacity disk entry root,declared with
  | none,_ => none
  | some (.ok derived),true =>
    -- The operator's figure stands.
    if derived.mib > entry.memoryEstimateMib then
      some (some entry,{ ledger with notes := ledger.notes ++ [scopeOf entry.id ++
        s!": memory_estimate_mib is declared as {entry.memoryEstimateMib} MiB, but its files suggest " ++
          s!"{derived.mib} MiB; keeping the declared value"] })
    else some (some entry,ledger)
  | some (.error _),true => some (some entry,ledger)
  | some (.ok derived),false =>
    let notes := if derived.basis = .Size then ledger.notes ++ [scopeOf entry.id ++
      s!": memory estimate of {derived.mib} MiB derived from file size alone, " ++
        "because the model file's metadata could not be read"] else ledger.notes
    some (some { entry with memoryEstimateMib := derived.mib },⟨notes,ledger.problems,entry.id :: ledger.derived⟩)
  | some (.error reason),false =>
    some (none,{ ledger with problems := ledger.problems ++ [(problem (scopeOf entry.id) "memory_estimate_mib"
      s!"is required, because it could not be derived: {reason}").text] })

/-- Every entry of the text, one after the other. -/
def settleAll (undeclared : List String) : List Entry → Ledger → Option (List Entry × Ledger)
  | [],ledger => some ([],ledger)
  | entry :: entries,ledger => do
    let (kept,ledger) ← settle capacity disk root entry (entry.id ∉ undeclared) ledger
    let (rest,ledger) ← settleAll undeclared entries ledger
    return (kept.toList ++ rest,ledger)

/-- The entries in the order of their identifiers. -/
def byId (entries : List Entry) : List Entry := entries.insertionSort fun a b => a.id ≤ b.id

/-- A reading of the text and of what the root carries beside it. -/
def readDrafts (drafts : Drafts) : Option (Except Report Reading) := do
  let (entries,ledger) ← settleAll capacity disk root drafts.undeclared drafts.entries ⟨[],drafts.problems,[]⟩
  if ledger.problems ≠ [] then return .error ⟨ledger.problems⟩
  let under := (Discover.under capacity disk root drafts.defaults entries).run
  let found ← under.value
  let discovered := found.map Entry.id
  return .ok
    { catalog := ⟨drafts.version.getD 0,byId (entries ++ found),ledger.derived ++ discovered,discovered⟩
      notes := ledger.notes ++ under.reports
      declared := entries.length
      root := root }

/-- Reads a catalog against a models root. -/
def read (toml : String → Except String Document) (text : String) : Option (Except Report Reading) :=
  match Read.drafts toml text with
  | .error report => some (.error report)
  | .ok drafts => readDrafts capacity disk root drafts

/-! ## What settling comes to -/

/-- Whether an entry can be settled: its derivation stays in range, and gives a
    figure where none is declared. -/
def Settles (undeclared : List String) (entry : Entry) : Prop :=
  ∃ result, derive capacity disk entry root = some result ∧ (entry.id ∈ undeclared → ∃ derived, result = .ok derived)

/-- The entry with the figure derived for it, where it declares none. -/
def figured (undeclared : List String) (entry : Entry) : Entry :=
  match derive capacity disk entry root with
  | some (.ok derived) => if entry.id ∈ undeclared then { entry with memoryEstimateMib := derived.mib } else entry
  | _ => entry

section Settle
variable {capacity : ℕ} {disk : Disk} {root : OsStr} {undeclared : List String}

/-- An entry settled without a problem could be settled. -/
theorem settle_clean {entry : Entry} {ledger ledger' : Ledger} {kept : Option Entry}
    (is : settle capacity disk root entry (entry.id ∉ undeclared) ledger = some (kept,ledger')) (clean : ledger'.problems = []) :
    Settles capacity disk root undeclared entry ∧ ledger.problems = [] ∧
      kept = some (figured capacity disk root undeclared entry) ∧
      ledger'.derived = if entry.id ∈ undeclared then entry.id :: ledger.derived else ledger.derived := by
  unfold settle at is
  cases derives : derive capacity disk entry root with
  | none => simp [derives] at is
  | some result =>
    by_cases told : entry.id ∈ undeclared
    · cases result with
      | error reason =>
        simp only [derives,told,not_true_eq_false,decide_false,Option.some.injEq,Prod.mk.injEq] at is
        obtain ⟨_,rfl⟩ := is
        simp at clean
      | ok derived =>
        simp only [derives,told,not_true_eq_false,decide_false,Option.some.injEq,Prod.mk.injEq] at is
        obtain ⟨rfl,rfl⟩ := is
        exact ⟨⟨_,derives,fun _ => ⟨derived,rfl⟩⟩,clean,by simp [figured,derives,told],by simp [told]⟩
    · have settles : Settles capacity disk root undeclared entry := ⟨result,derives,fun within => absurd within told⟩
      have same : figured capacity disk root undeclared entry = entry := by
        cases result <;> simp [figured,derives,told]
      rw [same,if_neg told]
      cases result with
      | error reason =>
        simp only [derives,told,not_false_eq_true,decide_true,Option.some.injEq,Prod.mk.injEq] at is
        obtain ⟨rfl,rfl⟩ := is
        exact ⟨settles,clean,rfl,rfl⟩
      | ok derived =>
        simp only [derives,told,not_false_eq_true,decide_true] at is
        split_ifs at is
        all_goals
          cases is
          exact ⟨settles,clean,rfl,rfl⟩

/-- An entry that can be settled is, without a problem. -/
theorem settle_of_settles {entry : Entry} (settles : Settles capacity disk root undeclared entry) {ledger : Ledger}
    (clean : ledger.problems = []) : ∃ kept ledger',
      settle capacity disk root entry (entry.id ∉ undeclared) ledger = some (kept,ledger') ∧ ledger'.problems = [] := by
  obtain ⟨result,derives,figure⟩ := settles
  unfold settle
  by_cases told : entry.id ∈ undeclared
  · obtain ⟨derived,rfl⟩ := figure told
    simp only [derives,told,not_true_eq_false,decide_false]
    exact ⟨_,_,rfl,clean⟩
  · cases result with
    | error reason =>
      simp only [derives,told,not_false_eq_true,decide_true]
      exact ⟨_,_,rfl,clean⟩
    | ok derived =>
      simp only [derives,told,not_false_eq_true,decide_true]
      split_ifs
      · exact ⟨_,_,rfl,clean⟩
      · exact ⟨_,_,rfl,clean⟩

/-- So it is for all entries: the run of the ledger through them. -/
theorem settleAll_clean {entries kept : List Entry} {ledger ledger' : Ledger}
    (is : settleAll capacity disk root undeclared entries ledger = some (kept,ledger')) (clean : ledger'.problems = []) :
    (∀ entry ∈ entries, Settles capacity disk root undeclared entry) ∧ ledger.problems = [] ∧
      kept = entries.map (figured capacity disk root undeclared) ∧
      ∀ id, id ∈ ledger'.derived ↔ id ∈ ledger.derived ∨ id ∈ entries.map Entry.id ∧ id ∈ undeclared := by
  induction entries generalizing kept ledger with
  | nil =>
    cases is
    exact ⟨by simp,clean,rfl,by simp⟩
  | cons entry entries ih =>
    obtain ⟨⟨first,between⟩,here,is⟩ := Option.bind_eq_some_iff.mp is
    obtain ⟨⟨rest,after⟩,behind,is⟩ := Option.bind_eq_some_iff.mp is
    cases is
    obtain ⟨others,clean_between,rfl,derived⟩ := ih behind
    obtain ⟨settles,clean_before,rfl,derived_here⟩ := settle_clean here clean_between
    refine ⟨List.forall_mem_cons.mpr ⟨settles,others⟩,clean_before,rfl,?_⟩
    intro id
    rw [derived,derived_here]
    by_cases told : entry.id ∈ undeclared
    · rw [if_pos told,List.mem_cons,List.map_cons,List.mem_cons]
      constructor
      · rintro ((rfl | before) | later)
        · exact .inr ⟨.inl rfl,told⟩
        · exact .inl before
        · exact .inr ⟨.inr later.1,later.2⟩
      · rintro (before | ⟨rfl | later,within⟩)
        · exact .inl (.inr before)
        · exact .inl (.inl rfl)
        · exact .inr ⟨later,within⟩
    · rw [if_neg told,List.map_cons,List.mem_cons]
      constructor
      · rintro (before | later)
        · exact .inl before
        · exact .inr ⟨.inr later.1,later.2⟩
      · rintro (before | ⟨rfl | later,within⟩)
        · exact .inl before
        · exact absurd within told
        · exact .inr ⟨later,within⟩

theorem settleAll_of_settles {entries : List Entry} (all : ∀ entry ∈ entries, Settles capacity disk root undeclared entry)
    {ledger : Ledger} (clean : ledger.problems = []) : ∃ kept ledger',
      settleAll capacity disk root undeclared entries ledger = some (kept,ledger') ∧ ledger'.problems = [] := by
  induction entries generalizing ledger with
  | nil => exact ⟨_,_,rfl,clean⟩
  | cons entry entries ih =>
    obtain ⟨settles,others⟩ := List.forall_mem_cons.mp all
    obtain ⟨first,between,here,clean_between⟩ := settle_of_settles settles clean
    obtain ⟨rest,after,behind,clean_after⟩ := ih others clean_between
    refine ⟨first.toList ++ rest,after,?_,clean_after⟩
    rw [settleAll,here]
    show (settleAll capacity disk root undeclared entries between).bind _ = _
    rw [behind]
    rfl

/-- Settling changes the estimate of an entry and nothing else. -/
theorem figured_eq (entry : Entry) :
    ∃ mib, figured capacity disk root undeclared entry = { entry with memoryEstimateMib := mib } := by
  unfold figured
  split
  · rename_i derived _
    split_ifs
    · exact ⟨derived.mib,rfl⟩
    · exact ⟨entry.memoryEstimateMib,rfl⟩
  · exact ⟨entry.memoryEstimateMib,rfl⟩

theorem figured_id (entry : Entry) : (figured capacity disk root undeclared entry).id = entry.id := by
  obtain ⟨mib,is⟩ := figured_eq entry
  rw [is]

theorem figured_ids (entries : List Entry) :
    (entries.map (figured capacity disk root undeclared)).map Entry.id = entries.map Entry.id := by
  rw [List.map_map]
  exact List.map_congr_left fun entry _ => figured_id entry

/-- An entry with a declared estimate keeps it. -/
theorem figured_declared {entry : Entry} (declared : entry.id ∉ undeclared) :
    figured capacity disk root undeclared entry = entry := by
  unfold figured
  split
  · rw [if_neg declared]
  · rfl

/-- An entry without one gets the figure derived for it. -/
theorem figured_undeclared {entry : Entry} (told : entry.id ∈ undeclared)
    (settles : Settles capacity disk root undeclared entry) : ∃ derived,
      derive capacity disk entry root = some (.ok derived) ∧
        figured capacity disk root undeclared entry = { entry with memoryEstimateMib := derived.mib } := by
  obtain ⟨result,derives,figure⟩ := settles
  obtain ⟨derived,rfl⟩ := figure told
  refine ⟨derived,derives,?_⟩
  rw [figured,derives]
  dsimp only
  rw [if_pos told]

/-- What is discovered beside the entries does not depend on their estimates. -/
theorem candidatesOf_figured (defaults : Defaults) (entries : List Entry) :
    Discover.candidatesOf disk root defaults (entries.map (figured capacity disk root undeclared)) =
      Discover.candidatesOf disk root defaults entries := by
  have located : (entries.map (figured capacity disk root undeclared)).map
      (fun entry => (entry.path,entry.draftPath,entry.projectorPath)) =
        entries.map fun entry => (entry.path,entry.draftPath,entry.projectorPath) := by
    rw [List.map_map]
    refine List.map_congr_left fun entry _ => ?_
    obtain ⟨mib,is⟩ := figured_eq entry
    rw [Function.comp_apply,is]
  unfold Discover.candidatesOf
  rw [figured_ids,Discover.referenced_congr root located]

end Settle
end Root

/-! ## The order of the entries -/

theorem mem_byId {entries : List Entry} {entry : Entry} : entry ∈ byId entries ↔ entry ∈ entries :=
  List.mem_insertionSort _

/-- Entries of different identifiers are put in strict order. -/
theorem byId_ascending {entries : List Entry} (distinct : (entries.map Entry.id).Nodup) :
    (byId entries).Pairwise fun a b => a.id < b.id := by
  have sorted : (byId entries).Pairwise fun a b => a.id ≤ b.id := by
    have : Std.Total fun a b : Entry => a.id ≤ b.id := ⟨fun a b => le_total a.id b.id⟩
    have : IsTrans Entry fun a b => a.id ≤ b.id := ⟨fun a b c => le_trans⟩
    exact List.pairwise_insertionSort _ _
  have apart : (byId entries).Pairwise fun a b => a.id ≠ b.id := by
    rw [List.Nodup,List.pairwise_map] at distinct
    exact (List.perm_insertionSort _ entries).symm.pairwise distinct fun apart same => apart same.symm
  exact (sorted.and apart).imp fun both => lt_of_le_of_ne both.1 both.2

/-- What was in strict order before is found in that order again, once what was
    added is taken out. -/
theorem byId_filter {entries found : List Entry} {p : Entry → Bool} (ascending : entries.Pairwise fun a b => a.id < b.id)
    (distinct : ((entries ++ found).map Entry.id).Nodup) (kept : ∀ entry ∈ entries, p entry = true)
    (added : ∀ entry ∈ found, p entry = false) : (byId (entries ++ found)).filter p = entries := by
  have same : ((byId (entries ++ found)).filter p).Perm entries := by
    refine ((List.perm_insertionSort _ _).filter p).trans ?_
    rw [List.filter_append,List.filter_eq_self.mpr kept,List.filter_eq_nil_iff.mpr fun entry inside => by simp [added entry inside]]
    rw [List.append_nil]
  refine same.eq_of_pairwise ?_ ((byId_ascending distinct).filter p) ascending
  intro a b _ _ below above
  exact absurd (below.trans above) (lt_irrefl _)

/-! ## What the readings come to -/

section Readings
variable {toml : String → Except String Document} {text : String}

theorem parse_eq_ok_iff {parsed : Parsed} : parse toml text = .ok parsed ↔ ∃ drafts, Read.drafts toml text = .ok drafts ∧
    drafts.problems = [] ∧ drafts.undeclared = [] ∧ parsed = ⟨drafts.version.getD 0,drafts.entries,[],[]⟩ := by
  unfold parse
  cases Read.drafts toml text with
  | error report => simp
  | ok drafts =>
    dsimp only
    split_ifs with clean
    · obtain ⟨problems,undeclared⟩ := List.append_eq_nil_iff.mp clean
      have undeclared := List.map_eq_nil_iff.mp undeclared
      constructor
      · intro is
        cases is
        exact ⟨drafts,rfl,problems,undeclared,rfl⟩
      · rintro ⟨other,same,_,_,rfl⟩
        cases same
        rfl
    · constructor
      · intro is
        cases is
      · rintro ⟨other,same,problems,undeclared,_⟩
        cases same
        rw [problems,undeclared] at clean
        exact absurd rfl clean

variable {capacity : ℕ} {disk : Disk} {root : OsStr} {drafts : Drafts} {reading : Reading}

/-- What a reading against a root is made of. -/
structure Reads (capacity : ℕ) (disk : Disk) (root : OsStr) (drafts : Drafts) (found : List Entry) (reading : Reading) :
    Prop where
  clean : drafts.problems = []
  settles : ∀ entry ∈ drafts.entries, Settles capacity disk root drafts.undeclared entry
  under : (Discover.under capacity disk root drafts.defaults
    (drafts.entries.map (figured capacity disk root drafts.undeclared))).run.value = some found
  entries : reading.catalog.entries = byId (drafts.entries.map (figured capacity disk root drafts.undeclared) ++ found)
  discovered : reading.catalog.discovered = found.map Entry.id
  derived : ∀ id, id ∈ reading.catalog.derived ↔
    (id ∈ drafts.entries.map Entry.id ∧ id ∈ drafts.undeclared) ∨ id ∈ found.map Entry.id
  declared : reading.declared = drafts.entries.length

theorem readDrafts_eq_ok (is : readDrafts capacity disk root drafts = some (.ok reading)) :
    ∃ found, Reads capacity disk root drafts found reading := by
  unfold readDrafts at is
  obtain ⟨⟨kept,ledger⟩,settled,is⟩ := Option.bind_eq_some_iff.mp is
  dsimp only at is
  by_cases clean : ledger.problems = []
  swap
  · rw [if_pos clean] at is
    cases is
  rw [if_neg (not_not_intro clean)] at is
  obtain ⟨found,under,is⟩ := Option.bind_eq_some_iff.mp is
  obtain ⟨settles,clean,rfl,derived⟩ := settleAll_clean settled clean
  cases is
  refine ⟨found,clean,settles,under,rfl,rfl,?_,List.length_map _⟩
  intro id
  simp [derived]

theorem read_eq_ok (is : read capacity disk root toml text = some (.ok reading)) :
    ∃ drafts found, Read.drafts toml text = .ok drafts ∧ Reads capacity disk root drafts found reading := by
  unfold read at is
  cases drafts_are : Read.drafts toml text with
  | error report =>
    rw [drafts_are] at is
    cases is
  | ok drafts =>
    rw [drafts_are] at is
    obtain ⟨found,reads⟩ := readDrafts_eq_ok is
    exact ⟨drafts,found,rfl,reads⟩

namespace Reads
variable {found : List Entry} {document : Document} (reads : Reads capacity disk root drafts found reading)
  (walked : Read.Walked document drafts)
include reads

/-- No discovered entry has the identifier of one of the text. -/
theorem fresh {entry : Entry} (inside : entry ∈ found) :
    entry.id ∉ drafts.entries.map Entry.id ∧ entry.id ∉ Discover.RESERVED ∧ Discover.Named entry.id := by
  have free := Discover.under_fresh reads.under inside
  rw [figured_ids] at free
  exact free

include walked

theorem distinct :
    ((drafts.entries.map (figured capacity disk root drafts.undeclared) ++ found).map Entry.id).Nodup := by
  rw [List.map_append,figured_ids]
  have declared : (drafts.entries.map Entry.id).Nodup := (walked.ascending reads.clean).imp ne_of_lt
  refine declared.append (Discover.under_distinct reads.under) ?_
  intro id declared discovered
  obtain ⟨entry,inside,rfl⟩ := List.mem_map.mp discovered
  exact (reads.fresh inside).1 declared

/-- The entries that are not discovered are those of the text, settled. -/
theorem filter_eq : reading.catalog.entries.filter (fun entry => !reading.catalog.isDiscovered entry.id) =
    drafts.entries.map (figured capacity disk root drafts.undeclared) := by
  rw [reads.entries]
  refine byId_filter ?_ (reads.distinct walked) ?_ ?_
  · have ascending := walked.ascending reads.clean
    rw [← figured_ids,List.pairwise_map] at ascending
    exact ascending
  · intro entry inside
    have declared : entry.id ∈ drafts.entries.map Entry.id := by
      rw [← figured_ids]
      exact List.mem_map_of_mem inside
    have apart : entry.id ∉ found.map Entry.id := by
      intro discovered
      obtain ⟨other,listed,same⟩ := List.mem_map.mp discovered
      exact (reads.fresh listed).1 (same ▸ declared)
    rw [Parsed.isDiscovered,reads.discovered]
    simpa using apart
  · intro entry inside
    rw [Parsed.isDiscovered,reads.discovered]
    simpa using ⟨entry,inside,rfl⟩

end Reads

/-- A reading goes through exactly where nothing is reported, every entry can be
    settled, and no derivation for a candidate breaks off. -/
theorem readDrafts_ok_iff : (∃ reading, readDrafts capacity disk root drafts = some (.ok reading)) ↔
    drafts.problems = [] ∧ (∀ entry ∈ drafts.entries, Settles capacity disk root drafts.undeclared entry) ∧
      ∀ candidate ∈ Discover.candidatesOf disk root drafts.defaults drafts.entries,
        (derive capacity disk candidate root).isSome := by
  constructor
  · rintro ⟨reading,is⟩
    obtain ⟨found,reads⟩ := readDrafts_eq_ok is
    refine ⟨reads.clean,reads.settles,?_⟩
    have under := reads.under
    rw [Discover.value_under,candidatesOf_figured] at under
    split_ifs at under with all
    exact all
  · rintro ⟨clean,settles,all⟩
    have start : (Ledger.mk [] drafts.problems []).problems = [] := clean
    obtain ⟨kept,ledger,settled,clean⟩ := settleAll_of_settles settles start
    obtain ⟨_,_,rfl,_⟩ := settleAll_clean settled clean
    unfold readDrafts
    rw [settled]
    dsimp only [Option.bind_eq_bind,Option.bind_some]
    rw [if_neg (not_not_intro clean),Discover.value_under,candidatesOf_figured,if_pos all]
    exact ⟨_,rfl⟩

end Readings
end Maestro.Resolve
