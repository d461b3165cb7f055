import Mathlib.Data.List.Basic
import Mathlib.Tactic.SplitIfs

/-!
# Text as bytes

The encoding of a text, the text that bytes encode where they encode one, and
the bytes below 128, which stand for themselves.
-/
namespace Maestro.Utf8

/-- The bytes of a text. -/
def encode (text : List Char) : List UInt8 := text.flatMap String.utf8EncodeChar

/-- The text that bytes are, where they are the bytes of one. -/
def decode (bytes : List UInt8) : Option (List Char) := (ByteArray.mk bytes.toArray).utf8Decode?.map Array.toList

theorem toByteArray_encode (text : List Char) : ByteArray.mk (encode text).toArray = text.utf8Encode := by
  apply ByteArray.ext
  simp [encode,List.utf8Encode]

theorem decode_encode (text : List Char) : decode (encode text) = some text := by
  rw [decode,toByteArray_encode,List.utf8Decode?_utf8Encode]
  simp

theorem decode_eq_some {bytes : List UInt8} {text : List Char} : decode bytes = some text ↔ bytes = encode text := by
  constructor
  · intro decoded
    obtain ⟨chars,is,rfl⟩ := Option.map_eq_some_iff.mp decoded
    have back := ByteArray.utf8Encode_get_utf8Decode? (b := ByteArray.mk bytes.toArray) (h := by simp [is])
    simp only [is,Option.get_some] at back
    rw [← toByteArray_encode] at back
    have arrays := congrArg ByteArray.data back
    have lists := congrArg Array.toList arrays
    simpa using lists.symm
  · rintro rfl
    exact decode_encode text

/-! ## Bytes that are no text -/

/-- How long a character with this first byte is, or 0. -/
def width (first : UInt8) : ℕ :=
  if first < 0x80 then 1
  else if first < 0xC2 then 0
  else if first < 0xE0 then 2
  else if first < 0xF0 then 3
  else if first < 0xF5 then 4
  else 0

/-- Whether a byte goes on with a character. -/
def continues (byte : UInt8) : Bool := 0x80 ≤ byte && byte < 0xC0

/-- Whether a second byte can follow the first. -/
def follows (first second : UInt8) : Bool :=
  if first = 0xE0 then 0xA0 ≤ second && second < 0xC0
  else if first = 0xED then 0x80 ≤ second && second < 0xA0
  else if first = 0xF0 then 0x90 ≤ second && second < 0xC0
  else if first = 0xF4 then 0x80 ≤ second && second < 0x90
  else continues second

/-- How many bytes behind the first belong to a character that breaks off. -/
def broken (first : UInt8) : List UInt8 → ℕ
  | [] => 0
  | second :: more =>
    if 3 ≤ width first && follows first second then 1 + ((more.take (width first - 3)).takeWhile continues).length else 0

/-- The text that bytes are, with a replacement for every stretch that is none;
    the first `skip` bytes belong to what went before. -/
def lossyFrom : ℕ → List UInt8 → List Char
  | _, [] => []
  | skip + 1, _ :: rest => lossyFrom skip rest
  | 0, first :: rest =>
    match (ByteArray.mk (first :: rest).toArray).utf8DecodeChar? 0 with
    | some c => c :: lossyFrom (c.utf8Size - 1) rest
    | none => Char.ofNat 0xFFFD :: lossyFrom (broken first rest) rest

/-- What `from_utf8_lossy` makes of bytes. -/
def lossy (bytes : List UInt8) : List Char := lossyFrom 0 bytes

theorem lossyFrom_skip (more rest : List UInt8) : lossyFrom more.length (more ++ rest) = lossyFrom 0 rest := by
  induction more with
  | nil => rfl
  | cons byte more ih => exact ih

/-- Nothing is lost of a text. -/
theorem lossy_encode (text : List Char) : lossy (encode text) = text := by
  induction text with
  | nil => rfl
  | cons c text ih =>
    obtain ⟨first,more,is⟩ := List.exists_cons_of_ne_nil (String.utf8EncodeChar_ne_nil : String.utf8EncodeChar c ≠ [])
    have size : c.utf8Size - 1 = more.length := by
      have length := String.length_utf8EncodeChar c
      rw [is,List.length_cons] at length
      omega
    have whole : encode (c :: text) = first :: (more ++ encode text) := by
      rw [encode,List.flatMap_cons,is]
      rfl
    have reads : (ByteArray.mk (first :: (more ++ encode text)).toArray).utf8DecodeChar? 0 = some c := by
      have core := ByteArray.utf8DecodeChar?_utf8EncodeChar_append (b := ⟨(encode text).toArray⟩) (c := c)
      rw [is] at core
      rw [← core]
      congr 1
      apply ByteArray.ext
      simp
    rw [lossy,whole,lossyFrom,reads]
    show c :: lossyFrom (c.utf8Size - 1) (more ++ encode text) = c :: text
    rw [size,lossyFrom_skip]
    exact congrArg (c :: ·) ih

/-! ## Bytes below 128 -/

theorem encodeChar_of_ascii {c : Char} (ascii : c.toNat < 128) : String.utf8EncodeChar c = [UInt8.ofNat c.toNat] := by
  have small : ¬ 127 < c.toNat := by omega
  simp [String.utf8EncodeChar,small]

/-- Every byte of a character beyond ASCII is at least 128. -/
theorem encodeChar_beyond {c : Char} (beyond : 128 ≤ c.toNat) {b : UInt8} (member : b ∈ String.utf8EncodeChar c) :
    128 ≤ b.toNat := by
  have big : ¬ c.val.toNat ≤ 0x7f := Nat.not_le.mpr beyond
  unfold String.utf8EncodeChar at member
  simp only [big,if_false] at member
  split_ifs at member
  all_goals
    simp only [List.mem_cons,List.not_mem_nil,or_false] at member
    rcases member with rfl | rfl | rfl | rfl <;> simp only [UInt8.toNat_ofNat'] <;> omega

/-- Bytes are all among some below 128 exactly when the characters are. -/
theorem encode_all_ascii {p : ℕ → Prop} (ascii : ∀ n, p n → n < 128) {text : List Char} :
    (∀ b ∈ encode text, p b.toNat) ↔ ∀ c ∈ text, p c.toNat := by
  constructor
  · intro all c member
    obtain ⟨b,inside⟩ : ∃ b, b ∈ String.utf8EncodeChar c := List.exists_mem_of_ne_nil _ String.utf8EncodeChar_ne_nil
    have is := all b (List.mem_flatMap.mpr ⟨c,member,inside⟩)
    by_cases small : c.toNat < 128
    · rw [encodeChar_of_ascii small,List.mem_singleton] at inside
      rw [inside,UInt8.toNat_ofNat',Nat.mod_eq_of_lt (by omega)] at is
      exact is
    · have := encodeChar_beyond (Nat.not_lt.mp small) inside
      have := ascii _ is
      omega
  · intro all b member
    obtain ⟨c,inside,encoded⟩ := List.mem_flatMap.mp member
    have is := all c inside
    have small := ascii _ is
    rw [encodeChar_of_ascii small,List.mem_singleton] at encoded
    rw [encoded,UInt8.toNat_ofNat',Nat.mod_eq_of_lt (by omega)]
    exact is

/-- A byte below 128 stands between whole characters. -/
theorem encode_split {b : UInt8} (ascii : b.toNat < 128) {text : List Char} {left right : List UInt8}
    (is : encode text = left ++ b :: right) :
    ∃ before c after, text = before ++ c :: after ∧ c.toNat = b.toNat ∧ left = encode before ∧ right = encode after := by
  induction text generalizing left with
  | nil =>
    rw [encode,List.flatMap_nil] at is
    exact absurd is.symm (by simp)
  | cons c text ih =>
    have whole : encode (c :: text) = String.utf8EncodeChar c ++ encode text := rfl
    rw [whole] at is
    rcases List.append_eq_append_iff.mp is with ⟨more,rfl,later⟩ | ⟨inside,encoded,later⟩
    · obtain ⟨before,d,after,rfl,same,rfl,rfl⟩ := ih later
      exact ⟨c :: before,d,after,rfl,same,rfl,rfl⟩
    · cases inside with
      | nil =>
        rw [List.append_nil] at encoded
        have onward : encode text = [] ++ b :: right := later.symm
        obtain ⟨before,d,after,rfl,same,none,rfl⟩ := ih onward
        refine ⟨c :: before,d,after,rfl,same,?_,rfl⟩
        rw [← encoded]
        change _ = String.utf8EncodeChar c ++ encode before
        rw [← none,List.append_nil]
      | cons x inside =>
        -- The byte is the character's own, which is then all of it.
        obtain ⟨rfl,rest⟩ := List.cons.inj later
        have member : b ∈ String.utf8EncodeChar c := by rw [encoded]; simp
        have small : c.toNat < 128 := by
          by_contra big
          have := encodeChar_beyond (Nat.not_lt.mp big) member
          omega
        rw [encodeChar_of_ascii small] at encoded
        obtain ⟨rfl,alone⟩ : left = [] ∧ [UInt8.ofNat c.toNat] = b :: inside := by
          cases left with
          | nil => exact ⟨rfl,encoded⟩
          | cons y left => simp at encoded
        obtain ⟨same,rfl⟩ := List.cons.inj alone
        refine ⟨[],c,text,rfl,?_,rfl,by simpa using rest⟩
        rw [← same,UInt8.toNat_ofNat',Nat.mod_eq_of_lt (by omega)]

/-- A byte below 128 is a character of the text. -/
theorem mem_encode {b : UInt8} (ascii : b.toNat < 128) {text : List Char} : b ∈ encode text ↔ ∃ c ∈ text, c.toNat = b.toNat := by
  constructor
  · intro member
    obtain ⟨left,right,is⟩ := List.append_of_mem member
    obtain ⟨before,c,after,rfl,same,_,_⟩ := encode_split ascii is
    exact ⟨c,by simp,same⟩
  · rintro ⟨c,member,same⟩
    refine List.mem_flatMap.mpr ⟨c,member,?_⟩
    rw [encodeChar_of_ascii (by omega),same,UInt8.ofNat_toNat]
    exact List.mem_singleton_self b

/-- A byte below 128 in front is the first character. -/
theorem encode_eq_cons {b : UInt8} (ascii : b.toNat < 128) {text : List Char} {rest : List UInt8} (is : encode text = b :: rest) :
    ∃ c after, text = c :: after ∧ c.toNat = b.toNat ∧ rest = encode after := by
  have onward : encode text = [] ++ b :: rest := is
  obtain ⟨before,c,after,letters,same,empty,behind⟩ := encode_split ascii onward
  cases before with
  | nil => exact ⟨c,after,letters,same,behind⟩
  | cons d before =>
    have encoded : ([] : List UInt8) = String.utf8EncodeChar d ++ encode before := empty
    exact absurd (List.append_eq_nil_iff.mp encoded.symm).1 String.utf8EncodeChar_ne_nil

end Maestro.Utf8
