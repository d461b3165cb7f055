import Maestro.Utf8
import Maestro.Lines

/-!
# One side of a connection

What a reader has still to give is the bytes that will arrive and how they go
on: the end, or an error. A writer takes bytes until it fails, if it does. How
many bytes one read delivers is up to the network.
-/
namespace Maestro.Socket

inductive ErrorKind
  | WouldBlock
  | TimedOut
  | InvalidData
  | UnexpectedEof
  | ConnectionReset
  | Other
deriving DecidableEq, Repr

/-- What an operation on a socket failed with, and how it says so. -/
structure IoError where
  kind : ErrorKind
  text : String
deriving DecidableEq, Repr

/-- What a reader has still to give: bytes, and then the end or an error. -/
structure Source where
  bytes : List UInt8
  failure : Option IoError
deriving DecidableEq, Repr

def invalidUtf8 : IoError := ⟨.InvalidData,"stream did not contain valid UTF-8"⟩

/-- `read_line` through `take`: the line or what the bound leaves of it, how
    many bytes that is, and the reader after it. -/
def readLine (limit : ℕ) (source : Source) : Except IoError (List Char × ℕ × Source) :=
  let (line,rest) := Lines.cut 10 limit source.bytes
  let whole := line.getLast? = some 10 || line.length = limit
  match source.failure, whole with
  | some error, false => .error error
  | _, _ =>
    match Utf8.decode line with
    | some text => .ok (text,line.length,⟨rest,source.failure⟩)
    | none => .error invalidUtf8

/-- What a successful read of a line took off the stream. -/
theorem readLine_ok {limit : ℕ} {source rest : Source} {text : List Char} {count : ℕ}
    (reads : readLine limit source = .ok (text,count,rest)) :
    ∃ line, line ++ rest.bytes = source.bytes ∧ rest.failure = source.failure ∧ line.length = count ∧
      count ≤ limit ∧ Utf8.decode line = some text ∧
      (Lines.IsLine 10 line ∨ 10 ∉ line ∧ (count = limit ∨ rest.bytes = [])) := by
  set line := (Lines.cut 10 limit source.bytes).1 with lineIs
  set after := (Lines.cut 10 limit source.bytes).2 with afterIs
  have split : line ++ after = source.bytes := Lines.cut_append limit source.bytes
  have bound : line.length ≤ limit := Lines.cut_length_le limit source.bytes
  have spec : Lines.IsLine 10 line ∨ 10 ∉ line ∧ (line.length = limit ∨ after = []) := Lines.cut_spec limit source.bytes
  have taken : Utf8.decode line = some text ∧ line.length = count ∧ (⟨after,source.failure⟩ : Source) = rest := by
    unfold readLine at reads
    simp only [← lineIs,← afterIs] at reads
    split at reads
    · cases reads
    · split at reads
      · rename_i decoded
        simp only [Except.ok.injEq,Prod.mk.injEq] at reads
        obtain ⟨rfl,rfl,rfl⟩ := reads
        exact ⟨decoded,rfl,rfl⟩
      · cases reads
  obtain ⟨decoded,rfl,rfl⟩ := taken
  exact ⟨line,split,rfl,rfl,bound,decoded,spec⟩

/-- A line that fits and is text is read whole. -/
theorem readLine_line {limit : ℕ} {line rest : List UInt8} {text : List Char} (is : Lines.IsLine 10 line)
    (fits : line.length ≤ limit) (decoded : Utf8.decode line = some text) (failure : Option IoError) :
    readLine limit ⟨line ++ rest,failure⟩ = .ok (text,line.length,⟨rest,failure⟩) := by
  obtain ⟨body,_,whole⟩ := id is
  have ends : line.getLast? = some 10 := by rw [whole]; simp
  simp only [readLine,Lines.cut_line is fits,ends,decide_true,Bool.true_or,decoded]

/-- Bytes without a line feed are read up to the limit, whatever it cuts. -/
theorem readLine_piece {limit : ℕ} {source : Source} (plain : 10 ∉ source.bytes.take limit)
    (long : limit ≤ source.bytes.length) : readLine limit source = match Utf8.decode (source.bytes.take limit) with
      | some text => .ok (text,limit,⟨source.bytes.drop limit,source.failure⟩)
      | none => .error invalidUtf8 := by
  have length : (source.bytes.take limit).length = limit := by rw [List.length_take,Nat.min_eq_left long]
  simp only [readLine,Lines.cut_plain plain,length,decide_true,Bool.or_true]
  cases source.failure <;> rfl

/-! ## Reading some bytes, and reading exactly so many -/

/-- One `read` into a buffer of `want` bytes: at least one byte where any is
    left, and at most `arrives` of them. -/
def Source.readSome (self : Source) (arrives want : ℕ) : Except IoError (List UInt8 × Source) :=
  match self.bytes with
  | [] => match self.failure with
    | some error => .error error
    | none => .ok ([],self)
  | bytes =>
    let count := max 1 (min arrives want)
    .ok (bytes.take count,⟨bytes.drop count,self.failure⟩)

def unexpectedEof : IoError := ⟨.UnexpectedEof,"failed to fill whole buffer"⟩

def Source.readExact (self : Source) (count : ℕ) : Except IoError (List UInt8 × Source) :=
  if count ≤ self.bytes.length then .ok (self.bytes.take count,⟨self.bytes.drop count,self.failure⟩)
  else .error (self.failure.getD unexpectedEof)

/-- At the end nothing is read, and a failure is met. -/
theorem readSome_ended {source : Source} (ended : source.bytes = []) (arrives want : ℕ) :
    source.readSome arrives want = match source.failure with
      | some error => .error error
      | none => .ok ([],source) := by
  rw [Source.readSome,ended]

/-- Before the end at least one byte is read, and no more than was wanted. -/
theorem readSome_filled {source : Source} {want : ℕ} (arrives : ℕ) (filled : source.bytes ≠ []) (wants : 0 < want) :
    ∃ read rest, source.readSome arrives want = .ok (read,rest) ∧ source.bytes = read ++ rest.bytes ∧
      rest.failure = source.failure ∧ 0 < read.length ∧ read.length ≤ want := by
  obtain ⟨first,more,is⟩ := List.exists_cons_of_ne_nil filled
  refine ⟨source.bytes.take (max 1 (min arrives want)),⟨source.bytes.drop (max 1 (min arrives want)),source.failure⟩,
    by rw [Source.readSome,is],(List.take_append_drop _ _).symm,rfl,?_,?_⟩
  · rw [List.length_take,is,List.length_cons]
    omega
  · rw [List.length_take]
    omega

theorem readSome_split {source rest : Source} {arrives want : ℕ} {read : List UInt8} (wants : 0 < want)
    (reads : source.readSome arrives want = .ok (read,rest)) : source.bytes = read ++ rest.bytes := by
  by_cases ended : source.bytes = []
  · rw [readSome_ended ended] at reads
    cases failure : source.failure <;> rw [failure] at reads
    · cases reads; simp
    · cases reads
  · obtain ⟨read',rest',is,split,_⟩ := readSome_filled arrives ended wants
    rw [is] at reads
    cases reads
    exact split

/-! ## Writing -/

/-- What has been written, and how much more is taken before writing fails. -/
structure Sink where
  written : List UInt8
  room : Option (ℕ × IoError)
deriving DecidableEq, Repr

/-- `write_all`: everything, or what was taken before the failure. -/
def Sink.writeAll (self : Sink) (bytes : List UInt8) : Sink × Option IoError :=
  match self.room with
  | none => (⟨self.written ++ bytes,none⟩,none)
  | some (room,error) =>
    if bytes.length ≤ room then (⟨self.written ++ bytes,some (room - bytes.length,error)⟩,none)
    else (⟨self.written ++ bytes.take room,some (0,error)⟩,some error)

/-- Whether this many bytes more are taken. -/
def Sink.Takes (self : Sink) (count : ℕ) : Prop := ∀ room error, self.room = some (room,error) → count ≤ room

theorem writeAll_takes {sink : Sink} {bytes : List UInt8} : (sink.writeAll bytes).2 = none ↔ sink.Takes bytes.length := by
  rcases sink with ⟨written,_ | ⟨room,error⟩⟩
  · simp [Sink.writeAll,Sink.Takes]
  · by_cases fits : bytes.length ≤ room
    · simp [Sink.writeAll,Sink.Takes,fits]
    · simp [Sink.writeAll,Sink.Takes,fits]

theorem writeAll_written {sink : Sink} {bytes : List UInt8} (takes : sink.Takes bytes.length) :
    (sink.writeAll bytes).1.written = sink.written ++ bytes := by
  rcases sink with ⟨written,_ | ⟨room,error⟩⟩
  · rfl
  · have fits : bytes.length ≤ room := takes room error rfl
    simp [Sink.writeAll,fits]

theorem takes_after {sink : Sink} {bytes : List UInt8} (takes : sink.Takes bytes.length) (count : ℕ) :
    (sink.writeAll bytes).1.Takes count ↔ sink.Takes (bytes.length + count) := by
  rcases sink with ⟨written,_ | ⟨room,error⟩⟩
  · simp [Sink.writeAll,Sink.Takes]
  · have fits : bytes.length ≤ room := takes room error rfl
    simp only [Sink.writeAll,fits,if_true,Sink.Takes,Option.some.injEq,Prod.mk.injEq]
    constructor
    · rintro all _ _ ⟨rfl,rfl⟩
      have := all (room - bytes.length) error ⟨rfl,rfl⟩
      omega
    · rintro all _ _ ⟨rfl,rfl⟩
      have := all room error ⟨rfl,rfl⟩
      omega

/-- What is written in two parts is written as one. -/
theorem writeAll_append (sink : Sink) (first second : List UInt8) : sink.writeAll (first ++ second) =
    match sink.writeAll first with
    | (after,some error) => (after,some error)
    | (after,none) => after.writeAll second := by
  rcases sink with ⟨written,_ | ⟨room,error⟩⟩
  · simp [Sink.writeAll]
  · by_cases fits : first.length ≤ room
    · by_cases both : first.length + second.length ≤ room
      · have rest : second.length ≤ room - first.length := by omega
        simp [Sink.writeAll,fits,both,rest]
        omega
      · have rest : ¬ second.length ≤ room - first.length := by omega
        simp [Sink.writeAll,fits,both,rest,List.take_append,List.take_of_length_le fits]
    · have both : ¬ first.length + second.length ≤ room := by omega
      have none_left : room - first.length = 0 := by omega
      simp [Sink.writeAll,fits,both,List.take_append,none_left]

theorem Sink.Takes.mono {sink : Sink} {few many : ℕ} (takes : sink.Takes many) (fewer : few ≤ many) : sink.Takes few :=
  fun room error is => Nat.le_trans fewer (takes room error is)

end Maestro.Socket
