import Mathlib.Data.Nat.Digits.Defs
import Mathlib.Data.List.Induction
import Mathlib.Data.List.Nodup
import Mathlib.Tactic.SplitIfs

/-!
# Reading a file from front to back

A reader takes bytes or passes over them, and what it does is told by chunks:
a reading yields a value on a chunk when, wherever a file goes on with that
chunk, it gives the value and stops behind it.
-/
namespace Maestro.Reading

/-! ## Numbers, least byte first -/

/-- The first `width` bytes of a number, least first. -/
def toLeBytes : ℕ → ℕ → List UInt8
  | 0, _ => []
  | width + 1, n => UInt8.ofNat (n % 256) :: toLeBytes width (n / 256)

/-- The number that bytes spell. -/
def fromLeBytes (bytes : List UInt8) : ℕ := Nat.ofDigits 256 (bytes.map UInt8.toNat)

@[simp] theorem toLeBytes_length (width n : ℕ) : (toLeBytes width n).length = width := by
  induction width generalizing n with
  | zero => rfl
  | succ width ih => simp [toLeBytes,ih]

theorem fromLeBytes_toLeBytes {width n : ℕ} (fits : n < 256 ^ width) : fromLeBytes (toLeBytes width n) = n := by
  induction width generalizing n with
  | zero =>
    have zero : n = 0 := by simpa using fits
    simp [toLeBytes,fromLeBytes,zero]
  | succ width ih =>
    have higher : n / 256 < 256 ^ width := by
      rw [Nat.div_lt_iff_lt_mul (by omega),← Nat.pow_succ]
      exact fits
    have tail := ih higher
    simp only [fromLeBytes] at tail
    simp only [toLeBytes,fromLeBytes,List.map_cons,Nat.ofDigits_cons,tail,UInt8.toNat_ofNat']
    omega

/-- Zeros behind a number do not change it. -/
theorem fromLeBytes_padded (bytes : List UInt8) (zeros : ℕ) : fromLeBytes (bytes ++ List.replicate zeros 0) = fromLeBytes bytes := by
  simp [fromLeBytes,Nat.ofDigits_append_replicate_zero]

theorem fromLeBytes_lt (bytes : List UInt8) : fromLeBytes bytes < 256 ^ bytes.length := by
  have bound : Nat.ofDigits 256 (bytes.map UInt8.toNat) < 256 ^ (bytes.map UInt8.toNat).length := by
    refine Nat.ofDigits_lt_base_pow_length (by decide) ?_
    intro digit inside
    obtain ⟨byte,_,rfl⟩ := List.mem_map.mp inside
    exact byte.toNat_lt
  rw [List.length_map] at bound
  exact bound

/-! ## Readers -/

/-- A file, no longer than the offsets into it. -/
structure File where
  bytes : List UInt8
  sized : bytes.length < 2 ^ 63

structure Reader where
  file : File
  position : ℕ

/-- What reads from a file, or fails. -/
abbrev Reads (ε : Type) := StateT Reader (Except ε)

section
variable {ε α β σ : Type}

/-- Exactly `n` bytes, or the failure of a file that ends inside them. -/
def exactly (ended : ε) (n : ℕ) : Reads ε (List UInt8) := fun reader =>
  if n = 0 ∨ reader.position + n ≤ reader.file.bytes.length then
    .ok ((reader.file.bytes.drop reader.position).take n,{ reader with position := reader.position + n })
  else .error ended

/-- Moves on without reading, to any offset a file could have. -/
def ahead (refused : ε) (n : ℕ) : Reads ε Unit := fun reader =>
  if reader.position + n < 2 ^ 63 then .ok ((),{ reader with position := reader.position + n }) else .error refused

/-- The same again, so many times. -/
def times (step : σ → Reads ε σ) : ℕ → σ → Reads ε σ
  | 0, state => pure state
  | n + 1, state => do
    let state ← step state
    times step n state

theorem toOption_eq_some {result : Except ε α} {value : α} :
    result.toOption = some value ↔ result = .ok value := by
  cases result with
  | error fault => exact ⟨fun is => (by cases is),fun is => (by cases is)⟩
  | ok found => exact ⟨fun is => (by cases is; rfl),fun is => (by cases is; rfl)⟩

/-- What two readings give, one after the other. -/
theorem bind_eq_ok {first : Reads ε α} {next : α → Reads ε β} {reader after : Reader} {value : β} :
    (first >>= next) reader = .ok (value,after) ↔
      ∃ a mid, first reader = .ok (a,mid) ∧ next a mid = .ok (value,after) := by
  show (first reader >>= fun read => next read.1 read.2) = _ ↔ _
  constructor
  · intro is
    cases reads : first reader with
    | error failure =>
      rw [reads] at is
      cases is
    | ok read =>
      rw [reads] at is
      exact ⟨read.1,read.2,rfl,is⟩
  · rintro ⟨a,mid,reads,is⟩
    rw [reads]
    exact is

/-- Wherever the file goes on with the chunk, the reading gives the value and
    stops behind the chunk. -/
def Yields (file : File) (reading : Reads ε α) (chunk : List UInt8) (value : α) : Prop :=
  ∀ before rest : List UInt8, file.bytes = before ++ (chunk ++ rest) →
    reading ⟨file,before.length⟩ = .ok (value,⟨file,before.length + chunk.length⟩)

section Rules
variable {file : File}

theorem Yields.pure (value : α) : Yields file (pure value : Reads ε α) [] value := by
  intro before rest is
  rfl

/-- Chunks are read one after the other. -/
theorem Yields.bind {first : Reads ε α} {next : α → Reads ε β} {chunk chunk' : List UInt8} {a : α} {b : β}
    (reads : Yields file first chunk a) (goes : Yields file (next a) chunk' b) : Yields file (first >>= next) (chunk ++ chunk') b := by
  intro before rest is
  have split : file.bytes = before ++ (chunk ++ (chunk' ++ rest)) := by
    rw [is,List.append_assoc]
  have behind : file.bytes = (before ++ chunk) ++ (chunk' ++ rest) := by
    rw [split,List.append_assoc]
  have first_is := reads before (chunk' ++ rest) split
  have next_is := goes (before ++ chunk) rest behind
  rw [List.length_append] at next_is
  refine bind_eq_ok.mpr ⟨a,_,first_is,?_⟩
  rw [next_is,List.length_append,Nat.add_assoc]

/-- A chunk of a file is no longer than a file. -/
theorem Yields.of_sized {reading : Reads ε α} {chunk : List UInt8} {value : α}
    (short : chunk.length < 2 ^ 63 → Yields file reading chunk value) : Yields file reading chunk value := by
  intro before rest is
  have bound := file.sized
  rw [is] at bound
  simp only [List.length_append] at bound
  exact short (by omega) before rest is

theorem Yields.map {reading : Reads ε α} {chunk : List UInt8} {a : α} (reads : Yields file reading chunk a) (f : α → β) :
    Yields file (do return f (← reading)) chunk (f a) := by
  have whole : Yields file (reading >>= fun a => Pure.pure (f a)) (chunk ++ []) (f a) := reads.bind (Yields.pure (f a))
  rw [List.append_nil] at whole
  exact whole

theorem exactly_yields (ended : ε) (chunk : List UInt8) : Yields file (exactly ended chunk.length) chunk chunk := by
  intro before rest is
  have inside : before.length + chunk.length ≤ file.bytes.length := by
    rw [is]
    simp only [List.length_append]
    omega
  rw [exactly,if_pos (.inr inside)]
  simp [is]

theorem ahead_yields (refused : ε) (chunk : List UInt8) : Yields file (ahead refused chunk.length) chunk () := by
  intro before rest is
  have bound := file.sized
  rw [is] at bound
  simp only [List.length_append] at bound
  rw [ahead,if_pos (by dsimp only; omega)]

/-- What is read time and again is the items, back to back. -/
theorem times_yields {ι : Type} {step : σ → Reads ε σ} {chunk : ι → List UInt8} {next : σ → ι → σ} {items : List ι}
    (each : ∀ state, ∀ item ∈ items, Yields file (step state) (chunk item) (next state item)) (state : σ) :
    Yields file (times step items.length state) (items.flatMap chunk) (items.foldl next state) := by
  induction items generalizing state with
  | nil => exact Yields.pure state
  | cons item items ih =>
    have here := each state item List.mem_cons_self
    have rest := ih (fun state other inside => each state other (List.mem_cons_of_mem _ inside)) (next state item)
    exact here.bind rest

end Rules

/-! ## What is read, where anything is -/

/-- Wherever the file goes on with the chunk, the reading gives nothing but the
    value, and stops behind the chunk. -/
def Gives (file : File) (reading : Reads ε α) (chunk : List UInt8) (value : α) : Prop :=
  ∀ before rest : List UInt8, file.bytes = before ++ (chunk ++ rest) → ∀ given after,
    reading ⟨file,before.length⟩ = .ok (given,after) → given = value ∧ after = ⟨file,before.length + chunk.length⟩

section Rules
variable {file : File}

theorem Yields.gives {reading : Reads ε α} {chunk : List UInt8} {value : α} (yields : Yields file reading chunk value) :
    Gives file reading chunk value := by
  intro before rest split given after is
  rw [yields before rest split] at is
  cases is
  exact ⟨rfl,rfl⟩

theorem Gives.throws (error : ε) (chunk : List UInt8) (value : α) : Gives file (throw error : Reads ε α) chunk value := by
  intro before rest split given after is
  cases is

theorem Gives.bind {first : Reads ε α} {next : α → Reads ε β} {chunk chunk' : List UInt8} {a : α} {b : β}
    (gives : Gives file first chunk a) (goes : Gives file (next a) chunk' b) : Gives file (first >>= next) (chunk ++ chunk') b := by
  intro before rest split given after is
  obtain ⟨found,mid,reads,is⟩ := bind_eq_ok.mp is
  obtain ⟨rfl,rfl⟩ := gives before (chunk' ++ rest) (by rw [split,List.append_assoc]) found mid reads
  have behind : file.bytes = (before ++ chunk) ++ (chunk' ++ rest) := by rw [split,List.append_assoc,List.append_assoc]
  have goes_on := goes (before ++ chunk) rest behind given after
  rw [List.length_append] at goes_on
  obtain ⟨rfl,rfl⟩ := goes_on is
  exact ⟨rfl,by rw [List.length_append,Nat.add_assoc]⟩

theorem Gives.stops (error : ε) (next : α → Reads ε β) (chunk : List UInt8) (value : β) :
    Gives file (throw error >>= next) chunk value := by
  intro before rest split given after is
  cases is

/-- A chunk of a file is no longer than a file. -/
theorem Gives.of_sized {reading : Reads ε α} {chunk : List UInt8} {value : α}
    (short : chunk.length < 2 ^ 63 → Gives file reading chunk value) : Gives file reading chunk value := by
  intro before rest split
  have bound := file.sized
  rw [split] at bound
  simp only [List.length_append] at bound
  exact short (by omega) before rest split

theorem times_gives {ι : Type} {step : σ → Reads ε σ} {chunk : ι → List UInt8} {next : σ → ι → σ} {items : List ι}
    (each : ∀ state, ∀ item ∈ items, Gives file (step state) (chunk item) (next state item)) (state : σ) :
    Gives file (times step items.length state) (items.flatMap chunk) (items.foldl next state) := by
  induction items generalizing state with
  | nil => exact (Yields.pure state).gives
  | cons item items ih =>
    have here := each state item List.mem_cons_self
    have rest := ih (fun state other inside => each state other (List.mem_cons_of_mem _ inside)) (next state item)
    exact here.bind rest

end Rules

/-! ## A file and its beginning -/

/-- What is given in a file is given in the other one, at the same place. -/
def Extends (part whole : File) (reading : Reads ε α) : Prop :=
  ∀ position value after, reading ⟨part,position⟩ = .ok (value,after) →
    ∃ behind, after = ⟨part,behind⟩ ∧ reading ⟨whole,position⟩ = .ok (value,⟨whole,behind⟩)

section Rules
variable {part whole : File}

theorem Extends.pure (value : α) : Extends part whole (pure value : Reads ε α) := by
  intro position given after is
  cases is
  exact ⟨position,rfl,rfl⟩

theorem Extends.throws (error : ε) : Extends part whole (throw error : Reads ε α) := by
  intro position value after is
  cases is

theorem Extends.stops (error : ε) (next : α → Reads ε β) : Extends part whole (throw error >>= next) := by
  intro position value after is
  cases is

theorem Extends.bind {first : Reads ε α} {next : α → Reads ε β} (extends_ : Extends part whole first)
    (goes : ∀ a, Extends part whole (next a)) : Extends part whole (first >>= next) := by
  intro position value after is
  obtain ⟨a,mid,reads,is⟩ := bind_eq_ok.mp is
  obtain ⟨behind,rfl,whole_reads⟩ := extends_ position a mid reads
  obtain ⟨last,rfl,whole_is⟩ := goes a behind value after is
  exact ⟨last,rfl,bind_eq_ok.mpr ⟨a,_,whole_reads,whole_is⟩⟩

theorem ahead_extends (refused : ε) (n : ℕ) : Extends part whole (ahead refused n) := by
  intro position value after is
  unfold ahead at is ⊢
  split_ifs at is with fits
  cases is
  exact ⟨_,rfl,if_pos fits⟩

/-- The bytes at a place of the beginning are those at that place of the file. -/
theorem exactly_extends (cut : part.bytes <+: whole.bytes) (ended : ε) (n : ℕ) : Extends part whole (exactly ended n) := by
  intro position value after is
  unfold exactly at is ⊢
  split_ifs at is with inside
  cases is
  obtain ⟨rest,split⟩ := cut
  refine ⟨_,rfl,?_⟩
  dsimp only at inside ⊢
  have fits : n = 0 ∨ position + n ≤ whole.bytes.length := by
    rw [← split,List.length_append]
    omega
  rw [if_pos fits]
  have same : (whole.bytes.drop position).take n = (part.bytes.drop position).take n := by
    rcases inside with rfl | inside
    · rw [List.take_zero,List.take_zero]
    · rw [← split,List.drop_append_of_le_length (by omega),List.take_append_of_le_length (by rw [List.length_drop]; omega)]
  rw [same]

theorem times_extends {step : σ → Reads ε σ} (each : ∀ state, Extends part whole (step state)) (n : ℕ) (state : σ) :
    Extends part whole (times step n state) := by
  induction n generalizing state with
  | zero => exact Extends.pure state
  | succ n ih => exact (each state).bind fun next => ih next

end Rules

/-! ## What a reading gives -/

/-- Whatever the reading gives is so. -/
def Ensures (reading : Reads ε α) (post : α → Prop) : Prop :=
  ∀ reader value after, reading reader = .ok (value,after) → post value

theorem Ensures.pure {post : α → Prop} {value : α} (holds : post value) : Ensures (pure value : Reads ε α) post := by
  intro reader other after is
  cases is
  exact holds

theorem Ensures.bind {first : Reads ε α} {next : α → Reads ε β} {mid : α → Prop} {post : β → Prop}
    (ensures : Ensures first mid) (goes : ∀ a, mid a → Ensures (next a) post) : Ensures (first >>= next) post := by
  intro reader value after is
  obtain ⟨a,mid,reads,is⟩ := bind_eq_ok.mp is
  exact goes a (ensures reader a mid reads) mid value after is

theorem Ensures.any (reading : Reads ε α) : Ensures reading fun _ => True := fun _ _ _ _ => trivial

theorem Ensures.throws {post : α → Prop} (error : ε) : Ensures (throw error : Reads ε α) post := by
  intro reader value after is
  cases is

theorem Ensures.stops {post : β → Prop} (error : ε) (next : α → Reads ε β) :
    Ensures (throw error >>= next) post := by
  intro reader value after is
  cases is

theorem exactly_ensures (ended : ε) (n : ℕ) : Ensures (exactly ended n) fun bytes => bytes.length ≤ n := by
  intro reader value after is
  unfold exactly at is
  split_ifs at is
  cases is
  exact List.length_take_le _ _

theorem times_ensures {step : σ → Reads ε σ} {inv : σ → Prop} (each : ∀ state, inv state → Ensures (step state) inv)
    (n : ℕ) {state : σ} (holds : inv state) : Ensures (times step n state) inv := by
  induction n generalizing state with
  | zero => exact Ensures.pure holds
  | succ n ih => exact (each state holds).bind fun next still => ih still

/-! ## What is paid for by bytes -/

/-- What a reading adds to the weight it starts with is no more than the bytes of
    the file that it passes. -/
def Pays (weight : α → ℕ) (start : ℕ) (reading : Reads ε α) : Prop :=
  ∀ reader value after, reading reader = .ok (value,after) → after.file = reader.file ∧
    weight value + min reader.position reader.file.bytes.length ≤ start + min after.position reader.file.bytes.length

section Rules
variable {weight : α → ℕ} {start : ℕ}

theorem Pays.pure {value : α} (light : weight value ≤ start) : Pays weight start (pure value : Reads ε α) := by
  intro reader given after is
  cases is
  exact ⟨rfl,Nat.add_le_add_right light _⟩

theorem Pays.throws (error : ε) : Pays weight start (throw error : Reads ε α) := by
  intro reader value after is
  cases is

theorem Pays.stops (error : ε) (next : β → Reads ε α) : Pays weight start (throw error >>= next) := by
  intro reader value after is
  cases is

theorem Pays.bind {mid : β → ℕ} {first : Reads ε β} {next : β → Reads ε α} (pays : Pays mid start first)
    (goes : ∀ b, Pays weight (mid b) (next b)) : Pays weight start (first >>= next) := by
  intro reader value after is
  obtain ⟨b,between,reads,is⟩ := bind_eq_ok.mp is
  obtain ⟨first_file,first_bound⟩ := pays reader b between reads
  obtain ⟨next_file,next_bound⟩ := goes b between value after is
  refine ⟨next_file.trans first_file,?_⟩
  rw [first_file] at next_bound
  omega

theorem exactly_pays (ended : ε) (n : ℕ) : Pays (fun _ => start + n) start (exactly ended n) := by
  intro reader value after is
  unfold exactly at is
  split_ifs at is with inside
  cases is
  refine ⟨rfl,?_⟩
  dsimp only
  omega

theorem ahead_pays (refused : ε) (n : ℕ) : Pays (fun _ => start) start (ahead refused n) := by
  intro reader value after is
  unfold ahead at is
  split_ifs at is
  cases is
  refine ⟨rfl,?_⟩
  dsimp only
  omega

theorem times_pays {step : α → Reads ε α} (each : ∀ state, Pays weight (weight state) (step state)) (n : ℕ) (state : α) :
    Pays weight (weight state) (times step n state) := by
  induction n generalizing state with
  | zero => exact Pays.pure (Nat.le_refl _)
  | succ n ih => exact (each state).bind fun next => ih next

theorem Pays.lighter {reading : Reads ε α} {less : ℕ} (pays : Pays weight less reading) (fewer : less ≤ start) :
    Pays weight start reading := by
  intro reader value after is
  obtain ⟨file_is,bound⟩ := pays reader value after is
  exact ⟨file_is,by omega⟩

/-- A file cannot be passed further than it is long. -/
theorem Pays.bound {reading : Reads ε α} (pays : Pays weight start reading) {reader after : Reader} {value : α}
    (is : reading reader = .ok (value,after)) : weight value ≤ start + reader.file.bytes.length := by
  obtain ⟨_,bound⟩ := pays reader value after is
  omega

end Rules
end

/-! ## Tables filled pair by pair -/

/-- A table that each pair fills at its own key alone holds what the pairs tell,
    where no key is met twice. -/
theorem filled_iff {σ κ ν ρ : Type} {step : σ → κ × ν → σ} {view : σ → κ → Option ρ} {tells : κ → ν → ρ → Prop}
    (other : ∀ state pair key, key ≠ pair.1 → view (step state pair) key = view state key)
    {pairs : List (κ × ν)} (own : ∀ state, ∀ pair ∈ pairs, view state pair.1 = none →
      ∀ held, view (step state pair) pair.1 = some held ↔ tells pair.1 pair.2 held)
    {start : σ} (nothing : ∀ key, view start key = none) (distinct : (pairs.map Prod.fst).Nodup) (key : κ) (held : ρ) :
    view (pairs.foldl step start) key = some held ↔ ∃ value, (key,value) ∈ pairs ∧ tells key value held := by
  induction pairs using List.reverseRecOn generalizing key held with
  | nil => simp [nothing]
  | append_singleton pairs pair ih =>
    obtain ⟨last,latest⟩ := pair
    rw [List.map_append,List.nodup_append] at distinct
    obtain ⟨before,_,apart⟩ := distinct
    have earlier_is := ih (fun state pair inside => own state pair (List.mem_append_left _ inside)) before
    have absent (value : ν) : (last,value) ∉ pairs := fun inside =>
      apart last (List.mem_map_of_mem (f := Prod.fst) inside) last (by simp) rfl
    have fresh : view (pairs.foldl step start) last = none := by
      rw [Option.eq_none_iff_forall_ne_some]
      intro told is
      obtain ⟨value,inside,_⟩ := (earlier_is last told).mp is
      exact absent value inside
    have members (value : ν) : (key,value) ∈ pairs ++ [(last,latest)] ↔ (key,value) ∈ pairs ∨ key = last ∧ value = latest := by
      simp
    rw [List.foldl_append,List.foldl_cons,List.foldl_nil]
    simp only [members]
    by_cases same : key = last
    · subst same
      rw [own _ (key,latest) (by simp) fresh held]
      constructor
      · intro is
        exact ⟨latest,.inr ⟨rfl,rfl⟩,is⟩
      · rintro ⟨value,earlier | ⟨_,rfl⟩,is⟩
        · exact absurd earlier (absent value)
        · exact is
    · rw [other _ (last,latest) key same,earlier_is key held]
      constructor
      · rintro ⟨value,inside,is⟩
        exact ⟨value,.inl inside,is⟩
      · rintro ⟨value,earlier | ⟨is_last,_⟩,is⟩
        · exact ⟨value,earlier,is⟩
        · exact absurd is_last same

end Maestro.Reading
