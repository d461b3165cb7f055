import Maestro.HeadRead

/-!
# The bounds of a request head

The bound cuts the stream at a byte, which may fall between lines, inside a line
or inside a character. What is left of the reader is told for a refusal too.
-/
namespace Maestro.Proxy
open Socket

/-! ## What is left of the reader -/

/-- The reader after the loop of `read`, however it ends. -/
def leftFrom : ℕ → ℕ → Source → Source
  | spare, read, source =>
    let remaining := MAX_HEAD_BYTES - read
    if remaining = 0 then source
    else match readLine remaining source with
      -- A line that fails has been taken off the stream all the same.
      | .error _ => ⟨(Lines.cut 10 remaining source.bytes).2,source.failure⟩
      | .ok (line,count,rest) =>
        if count = 0 then rest
        else if (Text.trimEndMatches isTerminator line).isEmpty then rest
        else match spare with
          | 0 => rest
          | spare + 1 => leftFrom spare (read + count) rest

/-- The reader after `read`. -/
def leftAfter (source : Source) : Source := leftFrom MAX_HEADERS 0 source

/-- A head that is read leaves the reader that comes with it. -/
theorem leftFrom_ok {spare read : ℕ} {lines texts : List (List Char)} {source rest : Source}
    (reads : readFrom spare read lines source = .ok (texts,rest)) : leftFrom spare read source = rest := by
  induction spare using Nat.strong_induction_on generalizing read lines source with
  | _ spare ih =>
    have within : MAX_HEAD_BYTES - read ≠ 0 := by
      intro full
      unfold readFrom at reads
      dsimp only at reads
      rw [if_pos full] at reads
      cases reads
    obtain ⟨text,count,after,line_reads,some,⟨empty,_,rfl⟩ | ⟨filled,fewer,rfl,later⟩⟩ := readFrom_cases reads
    · unfold leftFrom
      simp only [line_reads,if_neg within,if_neg some,empty,if_true]
    · unfold leftFrom
      simp only [line_reads,if_neg within,if_neg some,filled]
      exact ih fewer (Nat.lt_succ_self fewer) later

/-- Nothing is taken off the stream beyond the bound. -/
theorem leftFrom_within (spare read : ℕ) (source : Source) :
    ∃ consumed, source.bytes = consumed ++ (leftFrom spare read source).bytes ∧ consumed.length ≤ MAX_HEAD_BYTES - read := by
  induction spare using Nat.strong_induction_on generalizing read source with
  | _ spare ih =>
    unfold leftFrom
    dsimp only
    by_cases full : MAX_HEAD_BYTES - read = 0
    · rw [if_pos full]
      exact ⟨[],rfl,Nat.zero_le _⟩
    rw [if_neg full]
    cases line_reads : readLine (MAX_HEAD_BYTES - read) source with
    | error error => exact ⟨_,(Lines.cut_append _ _).symm,Lines.cut_length_le _ _⟩
    | ok result =>
      obtain ⟨text,count,rest⟩ := result
      obtain ⟨line,split,_,rfl,bound,_⟩ := readLine_ok line_reads
      have here : ∃ consumed, source.bytes = consumed ++ rest.bytes ∧ consumed.length ≤ MAX_HEAD_BYTES - read :=
        ⟨line,split.symm,bound⟩
      dsimp only
      split_ifs
      · exact here
      · exact here
      · cases spare with
        | zero => exact here
        | succ fewer =>
          obtain ⟨more,later,fits⟩ := ih fewer (Nat.lt_succ_self fewer) (read + line.length) rest
          refine ⟨line ++ more,by rw [← split,later,List.append_assoc],?_⟩
          rw [List.length_append]
          omega

/-! ## Where the bound falls -/

/-- The end of some bytes that is after their last line feed. -/
def lastPiece (bytes : List UInt8) : List UInt8 := bytes.rtakeWhile fun b => b ≠ 10

/-- The head is more than the router reads: its blank line ends beyond the bound
    on bytes, or comes after more lines than it takes. -/
def Oversized (source : Source) : Prop := ∃ lines last rest, Lines.Splits 10 Blank source.bytes lines last rest ∧
  (MAX_HEAD_BYTES < (lines.flatten ++ last).length ∨ MAX_HEADERS < lines.length)

/-- The first `room` bytes hold more than `spare` line feeds, or they end at
    one, or what comes after the last of them is whole characters and not only
    carriage returns. -/
def CutCleanly (spare room : ℕ) (bytes : List UInt8) : Prop :=
  spare < (bytes.take room).count 10 ∨ lastPiece (bytes.take room) = [] ∨
    (Utf8.decode (lastPiece (bytes.take room))).isSome ∧ ¬ Blank (lastPiece (bytes.take room))

/-- An oversized head is refused as oversized, nothing is read beyond the bound,
    and a head within both bounds is read. -/
structure BoundsHead (source : Source) : Prop where
  oversized : (Utf8.decode source.bytes).isSome → Oversized source →
    ∃ refusal, read source = .error refusal ∧ refusal.cause = .HeadTooLarge
  consumed : ∃ consumed, source.bytes = consumed ++ (leftAfter source).bytes ∧ consumed.length ≤ MAX_HEAD_BYTES
  within : ∀ lines last rest, Lines.Splits 10 Blank source.bytes lines last rest →
    (Utf8.decode (lines.flatten ++ last)).isSome → (lines.flatten ++ last).length ≤ MAX_HEAD_BYTES →
    lines.length ≤ MAX_HEADERS → ∃ result, read source = .ok result

theorem lastPiece_line {line : List UInt8} (is : Lines.IsLine 10 line) (bytes : List UInt8) :
    lastPiece (line ++ bytes) = lastPiece bytes := by
  obtain ⟨body,_,rfl⟩ := is
  induction bytes using List.reverseRecOn with
  | nil => simp [lastPiece]
  | append_singleton bytes b ih =>
    rw [← List.append_assoc]
    by_cases feed : b = 10
    · subst feed
      simp [lastPiece]
    · rw [lastPiece,lastPiece,List.rtakeWhile_concat_pos _ _ _ (by simp [feed]),List.rtakeWhile_concat_pos _ _ _ (by simp [feed])]
      exact congrArg (· ++ [b]) ih

theorem lastPiece_plain {bytes : List UInt8} (plain : 10 ∉ bytes) : lastPiece bytes = bytes := by
  rw [lastPiece,List.rtakeWhile_eq_self_iff]
  intro b member
  simp only [ne_eq,decide_not,Bool.not_eq_eq_eq_not,Bool.not_true,decide_eq_false_iff_not]
  rintro rfl
  exact plain member

theorem IsLine_count {line : List UInt8} (is : Lines.IsLine 10 line) : line.count 10 = 1 := by
  obtain ⟨body,plain,rfl⟩ := is
  rw [List.count_append,List.count_eq_zero_of_not_mem plain]
  rfl

/-! ## A line within the bound, and one beyond it -/

theorem readFrom_full {spare read : ℕ} (full : MAX_HEAD_BYTES - read = 0) (lines : List (List Char)) (source : Source) :
    readFrom spare read lines source = .error (unread .HeadTooLarge s!"longer than {MAX_HEAD_BYTES} bytes") := by
  unfold readFrom
  exact if_pos full

/-- A line that fits is read, ends the head if it is blank, and counts towards
    the lines otherwise. -/
theorem readFrom_line {spare read : ℕ} {line rest : List UInt8} {text : List Char} (is : Lines.IsLine 10 line)
    (fits : line.length ≤ MAX_HEAD_BYTES - read) (decoded : Utf8.decode line = some text) (failure : Option IoError)
    (lines : List (List Char)) : readFrom spare read lines ⟨line ++ rest,failure⟩ =
      if Blank line then .ok (lines,⟨rest,failure⟩)
      else match spare with
        | 0 => .error (unread .HeadTooLarge s!"more than {MAX_HEADERS} lines")
        | spare + 1 => readFrom spare (read + line.length) (lines ++ [Text.trimEndMatches isTerminator text]) ⟨rest,failure⟩ := by
  have some : line.length ≠ 0 := fun none => is.ne_nil (List.length_eq_zero_iff.mp none)
  have room : MAX_HEAD_BYTES - read ≠ 0 := by omega
  have blank := blank_iff decoded
  rw [readFrom.eq_def]
  dsimp only
  rw [if_neg room,readLine_line is fits decoded]
  dsimp only
  rw [if_neg some]
  by_cases ends : Blank line
  · rw [if_pos (blank.mpr ends),if_pos ends]
  · rewrite [if_neg (fun empty => ends (blank.mp empty)),if_neg ends]
    cases spare <;> rfl

/-- Where the bound falls inside a line, the head is refused as too large unless
    what is cut off is no text or is taken for a blank line. -/
theorem readFrom_cut {spare read : ℕ} (source : Source) (plain : 10 ∉ source.bytes.take (MAX_HEAD_BYTES - read))
    (long : MAX_HEAD_BYTES - read ≤ source.bytes.length) (lines : List (List Char)) :
    (∃ refusal, readFrom spare read lines source = .error refusal ∧ refusal.cause = .HeadTooLarge) ↔
      source.bytes.take (MAX_HEAD_BYTES - read) = [] ∨
      (Utf8.decode (source.bytes.take (MAX_HEAD_BYTES - read))).isSome ∧ ¬ Blank (source.bytes.take (MAX_HEAD_BYTES - read)) := by
  by_cases full : MAX_HEAD_BYTES - read = 0
  · rw [readFrom_full full]
    exact ⟨fun _ => .inl (by rw [full,List.take_zero]),fun _ => ⟨_,rfl,rfl⟩⟩
  have filled : source.bytes.take (MAX_HEAD_BYTES - read) ≠ [] := by
    intro empty
    have length := congrArg List.length empty
    rw [List.length_take,min_eq_left long,List.length_nil] at length
    exact full length
  rw [readFrom.eq_def]
  dsimp only
  rw [if_neg full,readLine_piece plain long]
  cases decoded : Utf8.decode (source.bytes.take (MAX_HEAD_BYTES - read)) with
  | none =>
    dsimp only
    simp only [filled,Option.isSome_none,Bool.false_eq_true,false_and,or_self,iff_false,not_exists,not_and]
    rintro refusal ⟨⟩
    exact fun absurdly => (by cases absurdly)
  | some text =>
    dsimp only
    have blank := blank_iff decoded
    rw [if_neg full]
    by_cases ends : Blank (source.bytes.take (MAX_HEAD_BYTES - read))
    · rw [if_pos (blank.mpr ends)]
      simp [filled,ends]
    · rw [if_neg (fun empty => ends (blank.mp empty))]
      simp only [filled,Option.isSome_some,ends,not_false_eq_true,and_self,or_true,iff_true]
      cases spare with
      | zero => exact ⟨_,rfl,rfl⟩
      | succ spare =>
        dsimp only
        rw [readFrom_full (by omega)]
        exact ⟨_,rfl,rfl⟩

/-! ## The whole head -/

/-- In a text that is cut into lines each line is text. -/
theorem lines_decode {lines : List (List UInt8)} {last rest : List UInt8} {text : List Char}
    (is_lines : ∀ line ∈ lines, Lines.IsLine 10 line) (last_line : Lines.IsLine 10 last)
    (is : lines.flatten ++ (last ++ rest) = Utf8.encode text) :
    (∀ line ∈ lines, ∃ part, Utf8.decode line = some part) ∧ ∃ part, Utf8.decode last = some part := by
  have first {line more : List UInt8} {text : List Char} (whole : Lines.IsLine 10 line) (is : line ++ more = Utf8.encode text) :
      (∃ part, Utf8.decode line = some part) ∧ ∃ later, more = Utf8.encode later := by
    obtain ⟨body,_,rfl⟩ := whole
    rw [List.append_assoc,List.singleton_append] at is
    obtain ⟨before,c,after,_,feed,rfl,rfl⟩ := Utf8.encode_split (b := 10) (by decide) is.symm
    have newline : c = '\n' := Char.toNat_inj.mp feed
    subst newline
    refine ⟨⟨before ++ ['\n'],Utf8.decode_eq_some.mpr ?_⟩,after,rfl⟩
    have feed : String.utf8EncodeChar '\n' = [10] := by decide
    simp [Utf8.encode,feed]
  induction lines generalizing text with
  | nil => exact ⟨by simp,(first last_line is).1⟩
  | cons line lines ih =>
    rw [List.flatten_cons,List.append_assoc] at is
    obtain ⟨here,later,rest_is⟩ := first (is_lines line List.mem_cons_self) is
    obtain ⟨others,ends⟩ := ih (fun other member => is_lines other (List.mem_cons_of_mem _ member)) rest_is
    refine ⟨fun other member => ?_,ends⟩
    rcases List.mem_cons.mp member with rfl | member
    · exact here
    · exact others other member

/-- A line beyond the bound, whether it is the blank one or one before it. -/
theorem readFrom_beyond {line more : List UInt8} {spare read : ℕ} {before : List (List Char)} {failure : Option IoError}
    (is : Lines.IsLine 10 line) (beyond : MAX_HEAD_BYTES - read < line.length) :
    (∃ refusal, readFrom spare read before ⟨line ++ more,failure⟩ = .error refusal ∧ refusal.cause = .HeadTooLarge) ↔
      CutCleanly spare (MAX_HEAD_BYTES - read) (line ++ more) := by
  have plain : 10 ∉ (line ++ more).take (MAX_HEAD_BYTES - read) := is.take_plain beyond
  have long : MAX_HEAD_BYTES - read ≤ (line ++ more).length := by rw [List.length_append]; omega
  rw [readFrom_cut ⟨line ++ more,failure⟩ plain long,CutCleanly,lastPiece_plain plain,
    List.count_eq_zero_of_not_mem plain]
  simp

theorem take_line {line more : List UInt8} {n : ℕ} (fits : line.length ≤ n) :
    (line ++ more).take n = line ++ more.take (n - line.length) := by
  rw [List.take_append,List.take_of_length_le fits]

theorem count_line {line more : List UInt8} (is : Lines.IsLine 10 line) : (line ++ more).count 10 = 1 + more.count 10 := by
  rw [List.count_append,IsLine_count is]

/-- No line may be left where one more is to be read. -/
theorem cutCleanly_full {line more : List UInt8} {n : ℕ} (is : Lines.IsLine 10 line) (fits : line.length ≤ n) :
    CutCleanly 0 n (line ++ more) := by
  left
  rw [take_line fits,count_line is]
  omega

/-- A line within the bound leaves the cut to what comes after it. -/
theorem cutCleanly_line {line more : List UInt8} {spare n : ℕ} (is : Lines.IsLine 10 line) (fits : line.length ≤ n) :
    CutCleanly (spare + 1) n (line ++ more) ↔ CutCleanly spare (n - line.length) more := by
  rw [CutCleanly,CutCleanly,take_line fits,count_line is,lastPiece_line is]
  have one (n : ℕ) : spare + 1 < 1 + n ↔ spare < n := by omega
  rw [one]

/-- A head beyond the bounds is refused as too large exactly where the bound
    cuts it cleanly. -/
theorem readFrom_oversized {lines : List (List UInt8)} {last rest : List UInt8} {spare read : ℕ} {failure : Option IoError}
    (splits : Lines.Splits 10 Blank (lines.flatten ++ (last ++ rest)) lines last rest)
    (texts : ∀ line ∈ lines, ∃ part, Utf8.decode line = some part) (within : read ≤ MAX_HEAD_BYTES)
    (over_ : MAX_HEAD_BYTES < read + (lines.flatten ++ last).length ∨ spare < lines.length) (before : List (List Char)) :
    (∃ refusal, readFrom spare read before ⟨lines.flatten ++ (last ++ rest),failure⟩ = .error refusal ∧
      refusal.cause = .HeadTooLarge) ↔ CutCleanly spare (MAX_HEAD_BYTES - read) (lines.flatten ++ (last ++ rest)) := by
  induction lines generalizing spare read before with
  | nil =>
    have beyond : MAX_HEAD_BYTES - read < last.length := by
      simp only [List.flatten_nil,List.nil_append,List.length_nil,Nat.not_lt_zero,or_false] at over_
      omega
    rw [List.flatten_nil,List.nil_append]
    exact readFrom_beyond splits.ends.1 beyond
  | cons line lines ih =>
    obtain ⟨is,filled⟩ := splits.before line List.mem_cons_self
    have shape : (line :: lines).flatten ++ (last ++ rest) = line ++ (lines.flatten ++ (last ++ rest)) := by
      rw [List.flatten_cons,List.append_assoc]
    rw [shape]
    by_cases fits : line.length ≤ MAX_HEAD_BYTES - read
    · obtain ⟨text,decoded⟩ := texts line List.mem_cons_self
      rw [readFrom_line is fits decoded,if_neg filled]
      cases spare with
      | zero => exact ⟨fun _ => cutCleanly_full is fits,fun _ => ⟨_,rfl,rfl⟩⟩
      | succ spare =>
        dsimp only
        have onward : Lines.Splits 10 Blank (lines.flatten ++ (last ++ rest)) lines last rest :=
          ⟨rfl,fun other member => splits.before other (List.mem_cons_of_mem _ member),splits.ends⟩
        have still : MAX_HEAD_BYTES < read + line.length + (lines.flatten ++ last).length ∨ spare < lines.length := by
          simp only [List.flatten_cons,List.length_append,List.length_cons] at over_ ⊢
          omega
        rw [cutCleanly_line is fits,Nat.sub_sub]
        exact ih onward (fun other member => texts other (List.mem_cons_of_mem _ member)) (by omega) still _
    · exact readFrom_beyond is (Nat.lt_of_not_le fits)

/-- A head within the bounds is read. -/
theorem readFrom_within {lines : List (List UInt8)} {last rest : List UInt8} {spare read : ℕ} {failure : Option IoError}
    (splits : Lines.Splits 10 Blank (lines.flatten ++ (last ++ rest)) lines last rest)
    (texts : ∀ line ∈ lines, ∃ part, Utf8.decode line = some part) (end_text : ∃ part, Utf8.decode last = some part)
    (within : read + (lines.flatten ++ last).length ≤ MAX_HEAD_BYTES) (few : lines.length ≤ spare) (before : List (List Char)) :
    ∃ result, readFrom spare read before ⟨lines.flatten ++ (last ++ rest),failure⟩ = .ok result := by
  induction lines generalizing spare read before with
  | nil =>
    obtain ⟨text,decoded⟩ := end_text
    simp only [List.flatten_nil,List.nil_append] at within ⊢
    rw [readFrom_line splits.ends.1 (by omega) decoded,if_pos splits.ends.2]
    exact ⟨_,rfl⟩
  | cons line lines ih =>
    obtain ⟨is,filled⟩ := splits.before line List.mem_cons_self
    obtain ⟨text,decoded⟩ := texts line List.mem_cons_self
    have shape : (line :: lines).flatten ++ (last ++ rest) = line ++ (lines.flatten ++ (last ++ rest)) := by
      rw [List.flatten_cons,List.append_assoc]
    simp only [List.flatten_cons,List.length_append] at within
    obtain ⟨fewer,rfl⟩ : ∃ fewer, spare = fewer + 1 := ⟨spare - 1,by simp only [List.length_cons] at few; omega⟩
    rw [shape,readFrom_line is (by omega) decoded,if_neg filled]
    refine ih ⟨rfl,fun other member => splits.before other (List.mem_cons_of_mem _ member),splits.ends⟩
      (fun other member => texts other (List.mem_cons_of_mem _ member)) ?_ (by simpa using few) _
    rw [List.length_append]
    omega

theorem read_oversized_iff {source : Source} (valid : (Utf8.decode source.bytes).isSome) (large : Oversized source) :
    (∃ refusal, read source = .error refusal ∧ refusal.cause = .HeadTooLarge) ↔
      CutCleanly MAX_HEADERS MAX_HEAD_BYTES source.bytes := by
  obtain ⟨lines,last,rest,splits,sizes⟩ := large
  obtain ⟨text,decoded⟩ := Option.isSome_iff_exists.mp valid
  have whole := splits.whole
  rcases source with ⟨bytes,failure⟩
  simp only at whole decoded splits ⊢
  subst whole
  obtain ⟨texts,_⟩ := lines_decode (fun line member => (splits.before line member).1) splits.ends.1
    (Utf8.decode_eq_some.mp decoded)
  have sized : MAX_HEAD_BYTES < 0 + (lines.flatten ++ last).length ∨ MAX_HEADERS < lines.length := by rwa [Nat.zero_add]
  exact readFrom_oversized splits texts (Nat.zero_le _) sized []

/-- The bounds hold of every stream but those with an oversized head of valid
    text that the bound cuts inside a character, or after nothing but carriage
    returns of a line. -/
theorem bounds_head_iff {source : Source} : BoundsHead source ↔
    ¬ ((Utf8.decode source.bytes).isSome ∧ Oversized source ∧ ¬ CutCleanly MAX_HEADERS MAX_HEAD_BYTES source.bytes) := by
  constructor
  · rintro bounds ⟨valid,large,unclean⟩
    exact unclean ((read_oversized_iff valid large).mp (bounds.oversized valid large))
  · intro clean
    refine ⟨fun valid large => (read_oversized_iff valid large).mpr ?_,?_,?_⟩
    · by_contra unclean
      exact clean ⟨valid,large,unclean⟩
    · exact leftFrom_within MAX_HEADERS 0 source
    · intro lines last rest splits valid fits few
      obtain ⟨text,decoded⟩ := Option.isSome_iff_exists.mp valid
      have whole := splits.whole
      rcases source with ⟨bytes,failure⟩
      simp only at whole splits
      subst whole
      have is : lines.flatten ++ (last ++ []) = Utf8.encode text := by
        rw [List.append_nil]
        exact Utf8.decode_eq_some.mp decoded
      obtain ⟨texts,end_text⟩ := lines_decode (fun line member => (splits.before line member).1) splits.ends.1 is
      exact readFrom_within splits texts end_text (by omega) few []


/-- A head whose blank line the bound cuts between its carriage return and its
    line feed is taken for one that fits. -/
theorem not_bounds_head {n : ℕ} (room : MAX_HEAD_BYTES = n + 2) : ¬ BoundsHead ⟨List.replicate n 97 ++ [10,13,10],none⟩ := by
  intro bounds
  have letter : String.utf8EncodeChar 'a' = [97] := by decide
  have carriage : String.utf8EncodeChar '\r' = [13] := by decide
  have feed : String.utf8EncodeChar '\n' = [10] := by decide
  have text : List.replicate n (97 : UInt8) ++ [10,13,10] = Utf8.encode (List.replicate n 'a' ++ ['\n','\r','\n']) := by
    simp [Utf8.encode,List.flatMap_replicate,letter,carriage,feed]
  have valid : (Utf8.decode (List.replicate n (97 : UInt8) ++ [10,13,10])).isSome := by
    rw [text,Utf8.decode_encode]
    rfl
  have plain : (10 : UInt8) ∉ List.replicate n 97 := fun member => absurd (List.eq_of_mem_replicate member) (by decide)
  have line : Lines.IsLine 10 (List.replicate n (97 : UInt8) ++ [10]) := ⟨_,plain,rfl⟩
  have splits : Lines.Splits 10 Blank (List.replicate n (97 : UInt8) ++ [10,13,10]) [List.replicate n 97 ++ [10]] [13,10] [] := by
    refine ⟨by simp,?_,⟨[13],by decide,rfl⟩,by decide⟩
    intro other member
    rw [List.mem_singleton.mp member]
    refine ⟨line,fun blank => ?_⟩
    have some : n ≠ 0 := by
      rintro rfl
      exact absurd room (by decide)
    have letter : (97 : UInt8) = 13 ∨ (97 : UInt8) = 10 :=
      blank 97 (List.mem_append_left _ (List.mem_replicate.mpr ⟨some,rfl⟩))
    exact absurd letter (by decide)
  have large : Oversized ⟨List.replicate n 97 ++ [10,13,10],none⟩ := by
    refine ⟨_,_,_,splits,.inl ?_⟩
    simp only [List.flatten_cons,List.flatten_nil,List.append_nil,List.length_append,List.length_replicate,List.length_cons,
      List.length_nil]
    omega
  have taken : (List.replicate n (97 : UInt8) ++ [10,13,10]).take MAX_HEAD_BYTES = (List.replicate n 97 ++ [10]) ++ [13] := by
    rw [room]
    simp [List.take_append]
  obtain many | none | ⟨_,filled⟩ := (read_oversized_iff valid large).mp (bounds.oversized valid large)
  · rw [taken,List.count_append,IsLine_count line] at many
    exact absurd many (by decide)
  · rw [taken,lastPiece_line line] at none
    exact absurd none (by decide)
  · rw [taken,lastPiece_line line] at filled
    exact filled (by decide)

theorem cut_in_the_terminator : ¬ BoundsHead ⟨List.replicate 65534 97 ++ [10,13,10],none⟩ := not_bounds_head (by decide)

end Maestro.Proxy
