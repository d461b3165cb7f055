import Maestro.Socket
import Maestro.Text
import Maestro.Refusal

/-!
# Reading a request head off a connection, within bounds

`read` takes the request line and the headers off a stream of bytes, ending at
the first blank line. The stream is the bytes that arrive and how it goes on
after them: it ends, or reading it fails.
-/
namespace Maestro.Proxy
open Socket

def MAX_HEAD_BYTES : ℕ := 64 * 1024

def MAX_HEADERS : ℕ := 100

/-- Two kinds, because the platforms disagree. -/
def timedOut (error : IoError) : Bool := error.kind = .WouldBlock || error.kind = .TimedOut

/-- A head the router will not read, and why. -/
def unread (cause : Cause) (reason : String) : Refusal := ⟨cause,s!"the request head is {reason}"⟩

def isTerminator (c : Char) : Bool := c = '\r' || c = '\n'

/-- The loop of `read`, with `read` bytes and `lines` behind it and room for
    `spare` lines more. -/
def readFrom : ℕ → ℕ → List (List Char) → Source → Except Refusal (List (List Char) × Source)
  | spare, read, lines, source =>
    let remaining := MAX_HEAD_BYTES - read
    if remaining = 0 then .error (unread .HeadTooLarge s!"longer than {MAX_HEAD_BYTES} bytes")
    else match readLine remaining source with
      | .error error =>
        let cause := if timedOut error then .RequestTimeout else .MalformedRequest
        .error (unread cause s!"unreadable: {error.text}")
      | .ok (line,count,rest) =>
        if count = 0 then .error (unread .MalformedRequest "ended before its blank line")
        else
          let trimmed := Text.trimEndMatches isTerminator line
          if trimmed.isEmpty then .ok (lines,rest)
          else match spare with
            | 0 => .error (unread .HeadTooLarge s!"more than {MAX_HEADERS} lines")
            | spare + 1 => readFrom spare (read + count) (lines ++ [trimmed]) rest

/-- The request line and the headers, ending at the first blank line. -/
def read (source : Source) : Except Refusal (List (List Char) × Source) := readFrom MAX_HEADERS 0 [] source

/-! ## One line -/

/-- A line made of line terminators only. -/
def Blank (line : List UInt8) : Prop := ∀ b ∈ line, b = 13 ∨ b = 10

instance (line : List UInt8) : Decidable (Blank line) := List.decidableBAll (fun b => b = 13 ∨ b = 10) line

/-- The text of a line, without its terminators. -/
def lineText (line : List UInt8) : Option (List Char) := (Utf8.decode line).map (Text.trimEndMatches isTerminator)

theorem blank_iff {line : List UInt8} {text : List Char} (decoded : Utf8.decode line = some text) :
    (Text.trimEndMatches isTerminator text).isEmpty = true ↔ Blank line := by
  have is := Utf8.decode_eq_some.mp decoded
  have bytes : Blank line ↔ ∀ b ∈ Utf8.encode text, b.toNat = 13 ∨ b.toNat = 10 := by
    rw [is]
    refine forall₂_congr fun b _ => or_congr ?_ ?_ <;> rw [← UInt8.toNat_inj] <;> rfl
  rw [bytes,Utf8.encode_all_ascii (p := fun n => n = 13 ∨ n = 10) (by omega),List.isEmpty_iff,Text.trimEndMatches,List.rdropWhile_eq_nil_iff]
  refine forall₂_congr fun c _ => ?_
  have cr : c = '\r' ↔ c.toNat = 13 := by
    rw [← Char.toNat_inj]
    rfl
  have lf : c = '\n' ↔ c.toNat = 10 := by
    rw [← Char.toNat_inj]
    rfl
  simp [isTerminator,cr,lf]

/-! ## The whole head -/

/-- How a successful read ends: lines that are not blank and are whole, then a
    blank piece that is whole or was cut off by the bound or by the end. -/
structure Ended (read : ℕ) (source : Source) (texts : List (List Char)) (rest : Source) (lines : List (List UInt8))
    (piece : List UInt8) : Prop where
  whole : source.bytes = lines.flatten ++ (piece ++ rest.bytes)
  failure : rest.failure = source.failure
  before : ∀ line ∈ lines, Lines.IsLine 10 line ∧ ¬ Blank line
  texts : lines.map lineText = texts.map some
  blank : Blank piece
  bound : read + lines.flatten.length + piece.length ≤ MAX_HEAD_BYTES
  last : Lines.IsLine 10 piece ∨ 10 ∉ piece ∧
    (read + lines.flatten.length + piece.length = MAX_HEAD_BYTES ∨ rest.bytes = [])

/-- What one pass of the loop comes to when the head is read. -/
theorem readFrom_cases {spare read : ℕ} {lines texts : List (List Char)} {source rest : Source}
    (reads : readFrom spare read lines source = .ok (texts,rest)) :
    ∃ text count after, readLine (MAX_HEAD_BYTES - read) source = .ok (text,count,after) ∧ count ≠ 0 ∧
      ((Text.trimEndMatches isTerminator text).isEmpty = true ∧ texts = lines ∧ rest = after ∨
        (Text.trimEndMatches isTerminator text).isEmpty = false ∧ ∃ fewer, spare = fewer + 1 ∧
          readFrom fewer (read + count) (lines ++ [Text.trimEndMatches isTerminator text]) after = .ok (texts,rest)) := by
  unfold readFrom at reads
  dsimp only at reads
  split_ifs at reads with full
  cases line_reads : readLine (MAX_HEAD_BYTES - read) source with
  | error error => rw [line_reads] at reads; cases reads
  | ok result =>
    obtain ⟨text,count,after⟩ := result
    rw [line_reads] at reads
    dsimp only at reads
    split_ifs at reads with none blank
    · simp only [Except.ok.injEq,Prod.mk.injEq] at reads
      exact ⟨text,count,after,rfl,none,.inl ⟨blank,reads.1.symm,reads.2.symm⟩⟩
    · cases spare with
      | zero => cases reads
      | succ fewer => exact ⟨text,count,after,rfl,none,.inr ⟨by simpa using blank,fewer,rfl,reads⟩⟩

/-- Nothing is read after a line that was cut off. -/
theorem readFrom_stuck {spare read : ℕ} {lines texts : List (List Char)} {source rest : Source}
    (stuck : read = MAX_HEAD_BYTES ∨ source.bytes = []) : readFrom spare read lines source ≠ .ok (texts,rest) := by
  intro reads
  obtain ⟨text,count,after,line_reads,some,_⟩ := readFrom_cases reads
  obtain ⟨line,split,_,length,bound,_⟩ := readLine_ok line_reads
  apply some
  rcases stuck with exceeds | ended
  · omega
  · rw [ended] at split
    rw [← length,(List.append_eq_nil_iff.mp split).1,List.length_nil]

theorem Ended.cons {read : ℕ} {source after rest : Source} {texts : List (List Char)} {text : List Char}
    {taken : List (List UInt8)} {piece line : List UInt8} (split : line ++ after.bytes = source.bytes)
    (failure : after.failure = source.failure) (is : Lines.IsLine 10 line) (filled : ¬ Blank line)
    (decoded : Utf8.decode line = some text) (later : Ended (read + line.length) after texts rest taken piece) :
    Ended read source (Text.trimEndMatches isTerminator text :: texts) rest (line :: taken) piece where
  whole := by rw [← split,later.whole,List.flatten_cons,List.append_assoc]
  failure := later.failure.trans failure
  before := by
    intro one member
    rcases List.mem_cons.mp member with rfl | further
    · exact ⟨is,filled⟩
    · exact later.before one further
  texts := by simp [later.texts,lineText,decoded]
  blank := later.blank
  bound := by
    have bound := later.bound
    simp only [List.flatten_cons,List.length_append]
    omega
  last := by
    refine later.last.imp_right (And.imp_right (Or.imp_left fun full => ?_))
    simp only [List.flatten_cons,List.length_append]
    omega

/-- The loop reads whole lines that are not blank, and ends at a blank piece. -/
theorem readFrom_ok {spare read : ℕ} {lines texts : List (List Char)} {source rest : Source} (within : read ≤ MAX_HEAD_BYTES)
    (reads : readFrom spare read lines source = .ok (texts,rest)) :
    ∃ more, texts = lines ++ more ∧ ∃ taken piece, Ended read source more rest taken piece := by
  induction spare using Nat.strong_induction_on generalizing read lines source with
  | _ spare ih =>
    obtain ⟨text,count,after,line_reads,some,⟨empty,rfl,rfl⟩ | ⟨filled,fewer,rfl,later⟩⟩ := readFrom_cases reads
    · obtain ⟨line,split,failure,rfl,bound,decoded,spec⟩ := readLine_ok line_reads
      refine ⟨[],by simp,[],line,⟨split.symm,failure,by simp,rfl,(blank_iff decoded).mp empty,?_,?_⟩⟩
      · simp only [List.flatten_nil,List.length_nil]
        omega
      · simp only [List.flatten_nil,List.length_nil]
        refine spec.imp_right (And.imp_right (Or.imp_left fun full => ?_))
        omega
    · obtain ⟨line,split,failure,rfl,bound,decoded,spec⟩ := readLine_ok line_reads
      have notBlank : ¬ Blank line := fun blank => by
        rw [(blank_iff decoded).mpr blank] at filled
        cases filled
      have is : Lines.IsLine 10 line := by
        rcases spec with is | ⟨_,full | ended⟩
        · exact is
        · exact absurd later (readFrom_stuck (.inl (by omega)))
        · exact absurd later (readFrom_stuck (.inr ended))
      obtain ⟨more,rfl,taken,piece,end_⟩ := ih fewer (by omega) (by omega) later
      exact ⟨Text.trimEndMatches isTerminator text :: more,by simp,line :: taken,piece,
        end_.cons split failure is notBlank decoded⟩

/-- The text of a line carries no line feed. -/
theorem lineText_plain {line : List UInt8} {text : List Char} (is : Lines.IsLine 10 line)
    (reads : lineText line = some text) : '\n' ∉ text := by
  obtain ⟨body,body_plain,rfl⟩ := is
  obtain ⟨whole,decoded,rfl⟩ := Option.map_eq_some_iff.mp reads
  have bytes := Utf8.decode_eq_some.mp decoded
  intro member
  obtain ⟨tail,split⟩ := List.rdropWhile_prefix isTerminator whole
  obtain ⟨before,after,inner⟩ := List.append_of_mem member
  -- What follows the line feed is not empty, for the trimmed text ends otherwise.
  have filled : after ≠ [] := by
    rintro rfl
    have last : (Text.trimEndMatches isTerminator whole).getLast? = some '\n' := by rw [inner]; simp
    have nonempty : whole.rdropWhile isTerminator ≠ [] := List.ne_nil_of_mem member
    have other := List.rdropWhile_last_not isTerminator whole nonempty
    rw [Text.trimEndMatches,List.getLast?_eq_some_getLast nonempty,Option.some.injEq] at last
    rw [last] at other
    exact other (by decide)
  have encoded : body ++ [10] = Utf8.encode before ++ 10 :: Utf8.encode (after ++ tail) := by
    rw [bytes,← split]
    change Utf8.encode (Text.trimEndMatches isTerminator whole ++ tail) = _
    rw [inner]
    have feed : String.utf8EncodeChar '\n' = [10] := by decide
    simp [Utf8.encode,feed]
  have later : Utf8.encode (after ++ tail) ≠ [] := by
    obtain ⟨c,more,rfl⟩ := List.exists_cons_of_ne_nil filled
    simp [Utf8.encode]
  rw [← List.dropLast_append_getLast later,← List.cons_append,← List.append_assoc] at encoded
  have bodies : body = Utf8.encode before ++ 10 :: (Utf8.encode (after ++ tail)).dropLast :=
    List.append_inj_left' encoded rfl
  exact body_plain (by rw [bodies]; simp)

/-- The lines of a head carry no line feeds. -/
theorem read_plain {source rest : Source} {texts : List (List Char)} (reads : read source = .ok (texts,rest)) :
    ∀ text ∈ texts, '\n' ∉ text := by
  obtain ⟨more,rfl,lines,piece,ended⟩ := readFrom_ok (Nat.zero_le _) reads
  intro text member
  have listed : some text ∈ lines.map lineText := by
    rw [ended.texts]
    exact List.mem_map_of_mem member
  obtain ⟨line,inside,is⟩ := List.mem_map.mp listed
  exact lineText_plain (ended.before line inside).1 is

/-! ## Where the head ends -/

/-- The bytes taken are those up to the line feed of the first blank line, the
    lines are those before it, and what is left begins right after it. -/
def SplitAtBlank (source : Source) (texts : List (List Char)) (rest : Source) : Prop :=
  ∃ lines last, Lines.Splits 10 Blank source.bytes lines last rest.bytes ∧ lines.map lineText = texts.map some ∧
    rest.failure = source.failure

/-- The line feed of the first blank line is among the first bytes that a head
    may have. -/
def BlankWithin (source : Source) : Prop :=
  ∃ lines last rest, Lines.Splits 10 Blank source.bytes lines last rest ∧
    (lines.flatten ++ last).length ≤ MAX_HEAD_BYTES

/-- A head that is read is split at the right byte exactly when its blank line
    ends within the bound: a bound, or the end of the stream, that falls inside
    the blank line is taken for its end. -/
theorem read_splits_iff {source rest : Source} {texts : List (List Char)} (reads : read source = .ok (texts,rest)) :
    SplitAtBlank source texts rest ↔ BlankWithin source := by
  obtain ⟨more,rfl,lines,piece,ended⟩ := readFrom_ok (Nat.zero_le _) reads
  have bound := ended.bound
  rw [Nat.zero_add] at bound
  constructor
  · rintro ⟨lines',last,splits,_,_⟩
    refine ⟨lines',last,rest.bytes,splits,?_⟩
    have taken := congrArg List.length splits.whole
    rw [ended.whole] at taken
    simp only [List.length_append] at taken bound ⊢
    omega
  · rintro ⟨lines',last,rest',splits,within⟩
    rcases ended.last with is | ⟨without,cutOff⟩
    · exact ⟨lines,piece,⟨ended.whole,ended.before,is,ended.blank⟩,ended.texts,ended.failure⟩
    · -- The piece was cut off, and the first blank line goes on beyond it.
      rw [ended.whole] at splits
      obtain ⟨more,rfl,later⟩ := splits.drop ended.before
      have beyond := later.outlasts without
      have taken := congrArg List.length later.whole
      simp only [List.flatten_append,List.length_append] at within beyond taken
      rcases cutOff with full | empty
      · omega
      · rw [empty,List.length_nil] at taken
        omega

theorem listing_split :
    let sent : Source := ⟨Utf8.encode "GET /v1/models\n\r\nx".toList,none⟩
    SplitAtBlank sent ["GET /v1/models".toList] ⟨[120],none⟩ := by
  intro sent
  have reads : read sent = .ok (["GET /v1/models".toList],⟨[120],none⟩) := by decide +kernel
  refine (read_splits_iff reads).mpr ⟨[Utf8.encode "GET /v1/models\n".toList],[13,10],[120],⟨by decide,?_,?_⟩,by decide⟩
  · intro line member
    obtain rfl : line = Utf8.encode "GET /v1/models\n".toList := by simpa using member
    refine ⟨⟨Utf8.encode "GET /v1/models".toList,by decide,by decide⟩,fun blank => ?_⟩
    exact absurd (blank 71 (by decide)) (by decide)
  · exact ⟨⟨[13],by decide,rfl⟩,by decide⟩

/-- A connection that ends inside the blank line is taken for one that sent it. -/
theorem unfinished_blank_line_accepted :
    let sent : Source := ⟨Utf8.encode "GET /v1/models\n\r".toList,none⟩
    read sent = .ok (["GET /v1/models".toList],⟨[],none⟩) ∧
      ¬ SplitAtBlank sent ["GET /v1/models".toList] ⟨[],none⟩ := by
  intro sent
  refine ⟨by decide +kernel,?_⟩
  rintro ⟨lines,last,⟨whole,_,⟨body,_,rfl⟩,_⟩,_⟩
  have ends := congrArg List.getLast? whole
  have feed : (lines.flatten ++ (body ++ [10] ++ [])).getLast? = some (10 : UInt8) := by simp
  have ended : sent.bytes.getLast? = some 13 := by decide
  rw [feed,ended] at ends
  cases ends

end Maestro.Proxy
