import Maestro.GgufWritten

/-!
# A model file cut short

What is stepped over is not looked at, so a cut inside it is met by the next
read or by the last look at the position. Whatever a beginning of a file gives
the whole file gives too, at the same places.
-/
namespace Maestro.Gguf
open Reading

section Extends
variable {part whole : File}

theorem skip_extends (bytes : ℕ) : Extends part whole (skip bytes) := by
  unfold skip
  split_ifs
  · exact ahead_extends _ bytes
  · exact Extends.throws _

variable (cut : part.bytes <+: whole.bytes)
include cut

theorem bytesAt_extends (n : ℕ) : Extends part whole (bytesAt n) := exactly_extends cut _ n

theorem u32At_extends : Extends part whole u32At := (bytesAt_extends cut 4).bind fun _ => Extends.pure _

theorem u64At_extends : Extends part whole u64At := (bytesAt_extends cut 8).bind fun _ => Extends.pure _

theorem textAt_extends (keep : ℕ) : Extends part whole (textAt keep) := by
  unfold textAt
  refine (u64At_extends cut).bind fun length => ?_
  split_ifs
  · exact (skip_extends length).bind fun _ => Extends.pure _
  · exact (bytesAt_extends cut length).bind fun _ => Extends.pure _

theorem scalarAt_extends (kind : ℕ) : Extends part whole (scalarAt kind) := by
  unfold scalarAt
  cases width kind with
  | error fault => exact Extends.throws fault
  | ok taken =>
    show Extends part whole (bytesAt taken >>= fun bytes => pure (unsigned kind (bytes ++ List.replicate (8 - taken) 0)))
    exact (bytesAt_extends cut taken).bind fun _ => Extends.pure _

theorem array_extends (self : Metadata) (key : String) : Extends part whole (self.array key) := by
  unfold Metadata.array
  refine (u32At_extends cut).bind fun kind => (u64At_extends cut).bind fun count => ?_
  split_ifs
  · exact Extends.stops _ _
  · refine (times_extends (fun kept => ?_) count _).bind fun _ => Extends.pure _
    exact (scalarAt_extends cut kind).bind fun _ => Extends.pure _
  · refine (times_extends (fun _ => ?_) count _).bind fun _ => Extends.pure _
    exact (textAt_extends cut 0).bind fun _ => Extends.pure _
  · exact Extends.stops _ _
  · cases width kind with
    | error fault => exact Extends.throws fault
    | ok wide =>
      show Extends part whole (if count * wide ≥ 2 ^ 64 then throw _ >>= fun _ => _ else _)
      split_ifs
      · exact Extends.stops _ _
      · exact (skip_extends _).bind fun _ => Extends.pure _

theorem value_extends (self : Metadata) (key : String) (kind : ℕ) : Extends part whole (self.value key kind) := by
  unfold Metadata.value
  by_cases string : kind = STRING
  · rw [if_pos string]
    exact (textAt_extends cut _).bind fun _ => Extends.pure _
  rw [if_neg string]
  by_cases array : kind = ARRAY
  · rw [if_pos array]
    exact array_extends cut self key
  · rw [if_neg array]
    exact (scalarAt_extends cut kind).bind fun _ => Extends.pure _

theorem pair_extends (self : Metadata) : Extends part whole self.pair := by
  unfold Metadata.pair
  refine (textAt_extends cut _).bind fun found => ?_
  cases found with
  | none => exact Extends.throws _
  | some key => exact (u32At_extends cut).bind fun kind => value_extends cut self key kind

theorem body_extends (self : Metadata) : Extends part whole self.body := by
  unfold Metadata.body
  refine (bytesAt_extends cut 4).bind fun magic => ?_
  split_ifs
  · exact Extends.stops _ _
  refine (u32At_extends cut).bind fun version => ?_
  split_ifs
  swap
  · exact Extends.stops _ _
  refine (u64At_extends cut).bind fun _ => (u64At_extends cut).bind fun pairs => ?_
  split_ifs
  · exact Extends.stops _ _
  · exact times_extends (fun self => pair_extends cut self) pairs self

/-- Where the metadata of a file ends beyond the cut, what is before the cut is
    a fault. -/
theorem ofFile_cut (beyond : ∀ metadata after, Metadata.empty.body ⟨whole,0⟩ = .ok (metadata,after) →
    part.bytes.length < after.position) : ∃ fault, Metadata.ofFile part = .error fault := by
  cases reads : Metadata.ofFile part with
  | error fault => exact ⟨fault,rfl⟩
  | ok metadata =>
    obtain ⟨after,fills⟩ := ofFile_eq_ok.mp reads
    obtain ⟨body,within⟩ := fill_eq_ok.mp fills
    obtain ⟨behind,rfl,whole_body⟩ := body_extends cut .empty 0 metadata after body
    exact absurd (beyond metadata _ whole_body) (Nat.not_lt.mpr within)

end Extends

/-- A file that is metadata to its end: laid out as the format specifies, or
    read to its last byte whatever its strings hold. -/
inductive AllMetadata (file : File) : Prop
  | written {version tensors : ℕ} {pairs : List (String × Value)} (is : file.bytes = head version tensors pairs) : AllMetadata file
  | accepted {metadata : Metadata} (reads : Metadata.empty.fill file.bytes.length ⟨file,0⟩ = .ok (metadata,⟨file,file.bytes.length⟩)) :
    AllMetadata file

theorem AllMetadata.ends {file : File} (all : AllMetadata file) {metadata : Metadata} {after : Reader}
    (body : Metadata.empty.body ⟨file,0⟩ = .ok (metadata,after)) : after.position = file.bytes.length := by
  cases all with
  | @written version tensors pairs is =>
    have split : file.bytes = [] ++ (head version tensors pairs ++ []) := by rw [is,List.append_nil,List.nil_append]
    obtain ⟨_,rfl⟩ := body_gives version tensors pairs file .empty [] [] split metadata after body
    rw [is]
    exact Nat.zero_add _
  | accepted reads =>
    have both := (fill_eq_ok.mp reads).1
    rw [body] at both
    cases both
    rfl

/-- No beginning of a file that is metadata to its end is read as a smaller
    file. -/
theorem cut_short_faults {whole part : File} (all : AllMetadata whole) {n : ℕ} (shorter : n < whole.bytes.length)
    (cut : part.bytes = whole.bytes.take n) : ∃ fault, Metadata.ofFile part = .error fault := by
  have inside : part.bytes <+: whole.bytes := cut ▸ List.take_prefix n whole.bytes
  refine ofFile_cut inside fun metadata after body => ?_
  rw [all.ends body,cut,List.length_take]
  omega

/-- A vocabulary's scores are stepped over, and come last. -/
def scoresM : List (String × Value) := [("general.architecture",.Text "llama"),("tokenizer.ggml.scores",.Scalars .FLOAT32 [1,2])]

def fileS : File := ⟨head 3 1 scoresM,by decide +kernel⟩

theorem scoresM_written : AllMetadata fileS := .written rfl

theorem cut_scores_fault : (Metadata.ofFile fileS).toOption.isSome ∧
    ∃ fault, Metadata.ofFile ⟨(head 3 1 scoresM).take 120,by decide +kernel⟩ = .error fault :=
  ⟨by decide +kernel,cut_short_faults (n := 120) scoresM_written (by decide +kernel) rfl⟩

end Maestro.Gguf
