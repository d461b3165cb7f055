import Maestro.Gguf
import Mathlib.Data.List.Lex

/-!
# Paths, and the files they lead to

A path is taken as the standard library takes it on Unix: bytes, that need not
be text, split at slashes. What each path leads to is what the machine says of
it, with every link followed.
-/
namespace Maestro

/-- The bytes of a path or of a file's name. -/
abbrev OsStr := List UInt8

namespace Path

def SLASH : UInt8 := 0x2F

def DOT : UInt8 := 0x2E

/-- `OsStr::to_str`. -/
def toStr (name : OsStr) : Option String := (Utf8.decode name).map String.ofList

/-- `Path::display`. -/
def display (path : OsStr) : String := String.ofList (Utf8.lossy path)

/-- `Path::join`; an absolute path stands for itself. -/
def join (base location : OsStr) : OsStr :=
  if location.head? = some SLASH then location
  else if base = [] ∨ base.getLast? = some SLASH then base ++ location
  else base ++ SLASH :: location

/-- `Path::components`, a leading slash or dot among them. -/
def components (path : OsStr) : List OsStr :=
  let parts := path.splitOn SLASH
  let front :=
    if path.head? = some SLASH then [[SLASH]]
    else if parts.head? = some [DOT] then [[DOT]]
    else []
  front ++ parts.filter fun part => part ≠ [] ∧ part ≠ [DOT]

/-- A path from its end, without the slashes and the dots that end it. -/
def trimBack : OsStr → OsStr
  | [] => []
  | last :: rest =>
    if last = SLASH then trimBack rest
    else if last = DOT ∧ rest.head? = some SLASH then trimBack rest
    else last :: rest

/-- `Path::file_name`. -/
def fileName (path : OsStr) : Option OsStr :=
  let last := ((trimBack path.reverse).takeWhile (· ≠ SLASH)).reverse
  if last = [] ∨ last = [DOT] ∨ last = [DOT,DOT] then none else some last

/-- `Path::parent`. -/
def parent (path : OsStr) : Option OsStr :=
  let back := trimBack path.reverse
  if back = [] then none
  else
    let above := (trimBack (back.dropWhile (· ≠ SLASH))).reverse
    if above = [] ∧ path.head? = some SLASH then some [SLASH] else some above

/-- `Path::with_file_name`. -/
def withFileName (path name : OsStr) : OsStr :=
  if (fileName path).isSome then join ((parent path).getD []) name else join path name

/-- `Path::strip_prefix`, as the components behind the prefix. -/
def stripPrefix (base path : OsStr) : Option (List OsStr) :=
  if (components base).isPrefixOf (components path) then some ((components path).drop (components base).length) else none

/-- `Path::extension`; a dot in front of a name begins none. -/
def extension (path : OsStr) : Option OsStr :=
  (fileName path).bind fun name =>
    if (name.reverse.dropWhile (· ≠ DOT)).drop 1 = [] then none else some (name.reverse.takeWhile (· ≠ DOT)).reverse

/-- What a component is ordered by: its kind before its bytes. -/
def rank (component : OsStr) : List ℕ :=
  if component = [SLASH] then [1]
  else if component = [DOT] then [2]
  else if component = [DOT,DOT] then [3]
  else 4 :: component.map UInt8.toNat

/-- The order of paths. -/
def le (a b : OsStr) : Bool := decide ((components a).map rank ≤ (components b).map rank)

example : components ([DOT,SLASH] ++ [0x61,SLASH,SLASH,DOT,SLASH,0x62]) = [[DOT],[0x61],[0x62]] := by decide

end Path

/-- What a path leads to: a file, with the reason when it cannot be opened; a
    directory, with the names in it when it can be listed; or neither. -/
inductive Node
  | File (content : Reading.File) (refused : Option String)
  | Directory (names : Option (List OsStr))
  | Other (refused : String)

/-- The machine's answer for each path, the same throughout one reading. -/
structure Disk where
  node : OsStr → Option Node

section
variable (self : Disk) (path : OsStr)

def Disk.isDir : Bool :=
  match self.node path with
  | some (.Directory _) => true
  | _ => false

/-- The names in a directory that can be listed. -/
def Disk.readDir : Option (List OsStr) :=
  match self.node path with
  | some (.Directory names) => names
  | _ => none

/-- The size of a file. -/
def Disk.size : Option ℕ :=
  match self.node path with
  | some (.File content _) => some content.bytes.length
  | _ => none

/-- Why a file cannot be read, by its path. -/
def Gguf.Fault.at (path : OsStr) (fault : Gguf.Fault) : Gguf.Fault := ⟨s!"'{Path.display path}': {fault.reason}"⟩

def Gguf.Fault.opening (path : OsStr) (error : String) : Gguf.Fault := ⟨s!"cannot open '{Path.display path}': {error}"⟩

/-- Reads the metadata at the head of a model file. -/
def Gguf.Metadata.read : Except Gguf.Fault Gguf.Metadata :=
  match self.node path with
  | some (.File content none) => (Gguf.Metadata.ofFile content).mapError (.at path)
  | some (.File _ (some error)) | some (.Other error) => .error (.opening path error)
  | some (.Directory _) => .error (.at path (.of "Is a directory (os error 21)"))
  | none => .error (.opening path "No such file or directory (os error 2)")

theorem Disk.size_small {size : ℕ} (is : self.size path = some size) : size < 2 ^ 63 := by
  unfold Disk.size at is
  split at is
  · rename_i content _ _
    cases is
    exact content.sized
  · cases is

/-- Whatever file is read, its numbers are of 64 bits. -/
theorem Gguf.read_small {metadata : Gguf.Metadata} (is : Gguf.Metadata.read self path = .ok metadata) : metadata.Small := by
  unfold Gguf.Metadata.read at is
  split at is
  · rename_i content _
    cases reads : Gguf.Metadata.ofFile content with
    | error fault =>
      rw [reads] at is
      cases is
    | ok found =>
      rw [reads] at is
      cases is
      exact Gguf.ofFile_small reads
  · cases is
  · cases is
  · cases is
  · cases is

end
end Maestro
