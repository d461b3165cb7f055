import Maestro.WellFormed
import Maestro.Launch
import Maestro.Invocation

/-!
# What is read can be started

The launcher takes paths as text, the catalog as bytes; on one machine they lead
to the same files. An entry whose estimate was derived has its model file there,
its command line names that file, and one that was found under the root needs
nothing else.
-/
namespace Maestro.Startable
open Gguf (textBytes)
open Resolve (Reading)
open Estimate (resolve)
open Toml (Document)

/-! ## Paths as text and as bytes -/

section
variable {text : String}

/-- A slash is first in the bytes where it is in the text. -/
theorem head_textBytes : (textBytes text).head? = some Path.SLASH ↔ text.toList.head? = some '/' := by
  constructor
  · intro first
    obtain ⟨rest,is⟩ := List.head?_eq_some_iff.mp first
    obtain ⟨c,after,letters,same,_⟩ := Utf8.encode_eq_cons (by decide) is
    rw [letters,List.head?_cons,Char.toNat_inj.mp (same.trans rfl : c.toNat = '/'.toNat)]
  · intro first
    obtain ⟨rest,letters⟩ := List.head?_eq_some_iff.mp first
    rw [textBytes,letters]
    rfl

/-- It is last where it is. -/
theorem getLast_textBytes : (textBytes text).getLast? = some Path.SLASH ↔ text.toList.getLast? = some '/' := by
  constructor
  · intro last
    obtain ⟨front,is⟩ := List.getLast?_eq_some_iff.mp last
    obtain ⟨before,c,after,letters,same,_,behind⟩ := Utf8.encode_split (by decide) is
    have none_after : after = [] := by
      cases after with
      | nil => rfl
      | cons d after =>
        have encoded : ([] : List UInt8) = String.utf8EncodeChar d ++ Utf8.encode after := behind
        exact absurd (List.append_eq_nil_iff.mp encoded.symm).1 String.utf8EncodeChar_ne_nil
    rw [letters,none_after,List.getLast?_concat,Char.toNat_inj.mp (same.trans rfl : c.toNat = '/'.toNat)]
  · intro last
    obtain ⟨front,letters⟩ := List.getLast?_eq_some_iff.mp last
    have encoded : textBytes text = Utf8.encode front ++ [Path.SLASH] := by
      rw [textBytes,letters,Utf8.encode,List.flatMap_append]
      rfl
    rw [encoded,List.getLast?_concat]

theorem textBytes_eq_nil : textBytes text = [] ↔ text = "" := by
  constructor
  · intro empty
    cases letters : text.toList with
    | nil => exact String.toList_eq_nil_iff.mp letters
    | cons c rest =>
      have encoded : Utf8.encode (c :: rest) = String.utf8EncodeChar c ++ Utf8.encode rest := rfl
      rw [textBytes,letters,encoded] at empty
      exact absurd (List.append_eq_nil_iff.mp empty).1 String.utf8EncodeChar_ne_nil
  · rintro rfl
    rfl

end

theorem textBytes_append (front back : String) : textBytes (front ++ back) = textBytes front ++ textBytes back := by
  rw [textBytes,String.toList_append,Utf8.encode,List.flatMap_append]
  rfl

/-- A location is joined to a root alike as text and as bytes. -/
theorem join_eq (root location : String) : textBytes (Launch.join root location) = resolve (textBytes root) location := by
  unfold Launch.join resolve Path.join
  simp only [head_textBytes,getLast_textBytes,textBytes_eq_nil]
  split_ifs
  · rfl
  · exact textBytes_append root location
  · rw [textBytes_append,textBytes_append,List.append_assoc]
    rfl

/-! ## What a reading leaves to be started -/

/-- The machine whose files are those of a disk. -/
def machineOn (disk : Disk) (searchPath : Option (List String)) : Launch.Machine where
  isFile path := (disk.size (textBytes path)).isSome
  searchPath := searchPath

section
variable {toml : String → Except String Document} {capacity : ℕ} {disk : Disk} {root text : String} {reading : Reading}
  (is : Resolve.read capacity disk (textBytes root) toml text = some (.ok reading)) {entry : Entry}
  (inside : entry ∈ reading.catalog.entries)
include is inside

/-- A file was there to derive an estimate from. -/
theorem derived_there (told : entry.id ∈ reading.catalog.derived) : (disk.size (resolve (textBytes root) entry.path)).isSome := by
  obtain ⟨drafts,found,_,reads⟩ := Resolve.read_eq_ok is
  obtain ⟨derived,derives,_⟩ := reads.figure_eq inside told
  cases there : disk.size (resolve (textBytes root) entry.path) with
  | some size => rfl
  | none =>
    obtain ⟨reason,missing⟩ := Estimate.derive_missing there
    rw [derives] at missing
    cases missing

/-- An entry that was found names no runtime, and its estimate is derived. -/
theorem discovered_plain (told : entry.id ∈ reading.catalog.discovered) :
    entry.runtime = none ∧ entry.id ∈ reading.catalog.derived := by
  obtain ⟨drafts,found,_,reads⟩ := Resolve.read_eq_ok is
  refine ⟨?_,(reads.derived entry.id).mpr (.inr (reads.discovered ▸ told))⟩
  rcases reads.mem_iff.mp inside with ⟨drafted,listed,rfl⟩ | discovered
  · rw [Resolve.figured_id] at told
    exact absurd told (reads.not_discovered listed)
  · obtain ⟨id,location,_,_,_,rfl⟩ := reads.discovered_cases discovered
    rfl

/-- An entry whose estimate was derived has its model file, which its command
    line names, and one that was found is not impossible to start. -/
theorem derived_startable (told : entry.id ∈ reading.catalog.derived) (searchPath : Option (List String)) (port : ℕ) :
    (∃ model rest, Launch.modelFile (machineOn disk searchPath) entry root = .ok model ∧
        Invocation.of entry (textBytes root) port = textBytes "--model" :: textBytes model :: rest) ∧
      (entry.id ∈ reading.catalog.discovered → ¬ Launch.Impossible (machineOn disk searchPath) entry root) := by
  have present : ¬ Launch.NoModel (machineOn disk searchPath) entry root := by
    intro missing
    have there := derived_there is inside told
    rw [← join_eq] at there
    exact Bool.false_ne_true (missing.symm.trans there)
  constructor
  · refine ⟨Launch.join root entry.path,(Invocation.of entry (textBytes root) port).drop 2,Launch.modelFile_of_present present,?_⟩
    rw [join_eq]
    rfl
  · rintro discovered (missing | ⟨runtime,named,_⟩)
    · exact present missing
    · rw [(discovered_plain is inside discovered).1] at named
      cases named

end

/-- So is the one that leaves its estimate to its file. -/
theorem m_startable : ∃ reading entry, Resolve.read 0 (Resolve.diskM Estimate.zip) (textBytes "models")
      (Resolve.readerOf Resolve.textM Resolve.documentM) Resolve.textM = some (.ok reading) ∧ entry ∈ reading.catalog.entries ∧
    (∃ model rest, Launch.modelFile (machineOn (Resolve.diskM Estimate.zip) none) entry "models" = .ok model ∧
        Invocation.of entry (textBytes "models") 8080 = textBytes "--model" :: textBytes model :: rest) ∧
      (entry.id ∈ reading.catalog.discovered → ¬ Launch.Impossible (machineOn (Resolve.diskM Estimate.zip) none) entry "models") := by
  obtain ⟨reading,is⟩ := Resolve.m_read
  have listed : ((Resolve.read 0 (Resolve.diskM Estimate.zip) Resolve.rootM (Resolve.readerOf Resolve.textM Resolve.documentM)
      Resolve.textM).bind Except.toOption).any (fun reading => reading.catalog.entries.any fun entry =>
        entry.id ∈ reading.catalog.derived) = true := by decide +kernel
  rw [is] at listed
  obtain ⟨entry,inside,told⟩ := List.any_eq_true.mp listed
  exact ⟨reading,entry,is,inside,derived_startable is inside (of_decide_eq_true told) none 8080⟩

end Maestro.Startable
