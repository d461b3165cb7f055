import Maestro.Reading
import Maestro.Utf8

/-!
# The primitives of the GGUF format

Fixed-width integers, strings, and stepping over what is not kept: one value's
bytes, whatever it is for.
-/
namespace Maestro.Gguf
open Reading

/-- Why a file could not be read as GGUF metadata. -/
structure Fault where
  reason : String
deriving DecidableEq, Repr

/-- A read that ended inside a value. -/
def Fault.of (error : String) : Fault := ⟨s!"ends inside its metadata: {error}"⟩

def bytesAt (n : ℕ) : Reads Fault (List UInt8) := exactly (.of "failed to fill whole buffer") n

def u32At : Reads Fault ℕ := do return fromLeBytes (← bytesAt 4)

def u64At : Reads Fault ℕ := do return fromLeBytes (← bytesAt 8)

/-- The bytes one scalar of this kind occupies, or a fault for a kind the format
    does not define. -/
def width (kind : ℕ) : Except Fault ℕ :=
  match kind with
  | 0 | 1 | 7 => .ok 1
  | 2 | 3 => .ok 2
  | 4 | 5 | 6 => .ok 4
  | 10 | 11 | 12 => .ok 8
  | _ => .error ⟨s!"uses value type {kind}, which the format does not define"⟩

/-- A number that is not negative. -/
def nonNegative (n : ℤ) : Option ℕ := if 0 ≤ n then some n.toNat else none

/-- The signed integer that so many bytes spell. -/
def signed (width : ℕ) (bytes : List UInt8) : ℤ := (BitVec.ofNat (8 * width) (fromLeBytes (bytes.take width))).toInt

/-- The integer a scalar's bytes spell, when they spell a non-negative one. A
    flag is one or nothing. -/
def unsigned (kind : ℕ) (bytes : List UInt8) : Option ℕ :=
  match kind with
  | 0 | 2 | 4 | 10 => some (fromLeBytes bytes)
  | 7 => some (if bytes.headD 0 ≠ 0 then 1 else 0)
  | 1 => nonNegative (signed 1 bytes)
  | 3 => nonNegative (signed 2 bytes)
  | 5 => nonNegative (signed 4 bytes)
  | 11 => nonNegative (signed 8 bytes)
  | _ => none

/-- One scalar, read into the front of eight zeros. -/
def scalarAt (kind : ℕ) : Reads Fault (Option ℕ) := do
  let taken ← width kind
  let bytes ← bytesAt taken
  return unsigned kind (bytes ++ List.replicate (8 - taken) 0)

/-- Steps over bytes without reading them. -/
def skip (bytes : ℕ) : Reads Fault Unit :=
  if bytes < 2 ^ 63 then ahead (.of "Invalid argument (os error 22)") bytes else throw ⟨"claims an impossible length"⟩

/-- A string, kept when it is no longer than `keep` bytes and stepped over
    otherwise. -/
def textAt (keep : ℕ) : Reads Fault (Option String) := do
  let length ← u64At
  if length > keep then
    skip length
    return none
  let bytes ← bytesAt length
  return some (String.ofList (Utf8.lossy bytes))

/-! ## What each of them reads -/

section Yields
variable {file : File}

theorem bytesAt_yields {n : ℕ} {chunk : List UInt8} (is : chunk.length = n) : Yields file (bytesAt n) chunk chunk := by
  subst is
  exact exactly_yields _ chunk

theorem u32At_yields {n : ℕ} (fits : n < 2 ^ 32) : Yields file u32At (toLeBytes 4 n) n := by
  have reads : Yields file u32At (toLeBytes 4 n) _ := (bytesAt_yields (toLeBytes_length 4 n)).map fromLeBytes
  rw [fromLeBytes_toLeBytes (by omega)] at reads
  exact reads

theorem u64At_yields {n : ℕ} (fits : n < 2 ^ 64) : Yields file u64At (toLeBytes 8 n) n := by
  have reads : Yields file u64At (toLeBytes 8 n) _ := (bytesAt_yields (toLeBytes_length 8 n)).map fromLeBytes
  rw [fromLeBytes_toLeBytes (by omega)] at reads
  exact reads

theorem skip_yields (chunk : List UInt8) : Yields file (skip chunk.length) chunk () := by
  refine Yields.of_sized fun short => ?_
  rw [skip,if_pos short]
  exact ahead_yields _ chunk

/-- The bytes of a string. -/
def textBytes (text : String) : List UInt8 := Utf8.encode text.toList

/-- A string as the format stores it: a length, then the bytes. -/
def text (text : String) : List UInt8 := toLeBytes 8 (textBytes text).length ++ textBytes text

theorem textAt_yields (keep : ℕ) (string : String) :
    Yields file (textAt keep) (text string) (if (textBytes string).length ≤ keep then some string else none) := by
  refine Yields.of_sized fun short => ?_
  have fits : (textBytes string).length < 2 ^ 64 := by
    rw [text,List.length_append] at short
    omega
  refine (u64At_yields fits).bind ?_
  by_cases long : (textBytes string).length > keep
  · rw [if_pos long,if_neg (Nat.not_le.mpr long)]
    exact (skip_yields _).map fun _ => none
  · rw [if_neg long,if_pos (Nat.not_lt.mp long)]
    have reads : Yields file _ (textBytes string) _ := (bytesAt_yields rfl).map fun bytes =>
      some (String.ofList (Utf8.lossy bytes))
    have kept : String.ofList (Utf8.lossy (textBytes string)) = string := by
      rw [textBytes,Utf8.lossy_encode,String.ofList_toList]
    rw [kept] at reads
    exact reads

end Yields
end Maestro.Gguf
