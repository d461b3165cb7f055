import Maestro.Memory

/-!
# A tool's figure is exact or unknown

Exactly where the running sums stay in their range: a figure is then the sum of
the columns printed, and is given where every line that counts can be read. A
sum that leaves its range panics.
-/
namespace Maestro.Memory
open Text (Numeral)

/-! ## What is read in front of the first that cannot be -/

section InFront
variable {α β : Type} {f : α → Option β}

def readInFront (f : α → Option β) : List α → List β
  | [] => []
  | x :: rest => match f x with
    | none => []
    | some y => y :: readInFront f rest

theorem readInFront_unread {x : α} (unread : f x = none) (rest : List α) : readInFront f (x :: rest) = [] := by
  rw [readInFront,unread]

theorem readInFront_read {x : α} {y : β} (read : f x = some y) (rest : List α) :
    readInFront f (x :: rest) = y :: readInFront f rest := by
  rw [readInFront,read]

/-- What is read of a list that can be read to its end. -/
theorem readInFront_all {xs : List α} {ys : List β} (all : List.Forall₂ (fun x y => f x = some y) xs ys) : readInFront f xs = ys := by
  induction all with
  | nil => rfl
  | cons read _ ih => rw [readInFront_read read,ih]

theorem read_of_all {xs : List α} {ys : List β} (all : List.Forall₂ (fun x y => f x = some y) xs ys) {x : α} (member : x ∈ xs) :
    f x ≠ none := by
  induction all with
  | nil => cases member
  | cons read _ ih =>
    rcases List.mem_cons.mp member with rfl | later
    · rw [read]
      simp
    · exact ih later

/-- A list can be read to its end, or something in it cannot be read. -/
theorem all_or_unread (f : α → Option β) (xs : List α) :
    (∃ ys, List.Forall₂ (fun x y => f x = some y) xs ys) ∨ ∃ x ∈ xs, f x = none := by
  induction xs with
  | nil => exact .inl ⟨[],.nil⟩
  | cons x xs ih =>
    cases read : f x with
    | none => exact .inr ⟨x,List.mem_cons_self,read⟩
    | some y =>
      rcases ih with ⟨ys,all⟩ | ⟨other,member,unread⟩
      · exact .inl ⟨y :: ys,.cons read all⟩
      · exact .inr ⟨other,List.mem_cons_of_mem _ member,unread⟩

theorem unread_later {x : α} {xs : List α} {y : β} (unread : ∃ other ∈ x :: xs, f other = none) (read : f x = some y) :
    ∃ other ∈ xs, f other = none := by
  obtain ⟨other,member,none⟩ := unread
  rcases List.mem_cons.mp member with rfl | later
  · rw [read] at none
    cases none
  · exact ⟨other,later,none⟩

end InFront

/-! ## What the devices hold -/

/-- The first number of a line, as the loop reads it. -/
def leading (line : List Char) : Option ℕ :=
  (Text.splitOnce ',' line).bind fun (left,_) => Text.parseUnsigned 64 (Text.trim left)

/-- Both numbers of a line. -/
def row (line : List Char) : Option (ℕ × ℕ) :=
  (Text.splitOnce ',' line).bind fun (left,right) => do
    let total ← Text.parseUnsigned 64 (Text.trim left)
    let used ← Text.parseUnsigned 64 (Text.trim right)
    return (total,used)

/-- Two unsigned decimal numbers and one comma, white space around either. -/
def Row (line : List Char) (total used : ℕ) : Prop :=
  ∃ left right, line = left ++ ',' :: right ∧ ',' ∉ left ∧ ',' ∉ right ∧ Numeral (Text.trim left) total ∧
    Numeral (Text.trim right) used

/-- The lines that count. -/
def filled (text : List Char) : List (List Char) := (Text.lines text).filter fun line => !blank line

/-- What a text reports: every line but the blank ones is a row, there is one,
    and the figures are the sums of the columns, which fit. -/
def Reported (text : List Char) (memory : DeviceMemory) : Prop :=
  ∃ rows : List (ℕ × ℕ), List.Forall₂ (fun line r => Row line r.1 r.2) (filled text) rows ∧ rows ≠ [] ∧
    memory.totalMib = (rows.map Prod.fst).sum ∧ memory.usedMib = (rows.map Prod.snd).sum ∧
    memory.totalMib < 2 ^ 64 ∧ memory.usedMib < 2 ^ 64

/-- A figure is given exactly where the text reports it, and anything else is
    unknown. -/
structure DeviceExact (text : List Char) : Prop where
  figure : ∀ memory, device text = some (some memory) ↔ Reported text memory
  calm : device text ≠ none

/-- The sums stay in their range up to the first line that is no row, of which
    the first number is added where it can be read. -/
structure Fits (sums : Columns) (lines : List (List Char)) : Prop where
  total : sums.total + ((readInFront row lines).map Prod.fst).sum +
    ((lines.drop (readInFront row lines).length).head?.bind leading).getD 0 < 2 ^ 64
  used : sums.used + ((readInFront row lines).map Prod.snd).sum < 2 ^ 64
  devices : sums.devices + (readInFront row lines).length < 2 ^ 31

/-! ### Lines and rows -/

theorem comma_free {s : List Char} {n : ℕ} (is : Numeral (Text.trim s) n) : ',' ∉ s := by
  intro member
  have inside := Text.trim_keeps (show Text.whiteSpace ',' = false by decide) member
  obtain ⟨ds,same | same,_,are,_⟩ := is
  · rw [same] at inside
    exact absurd (are _ inside) (by decide)
  · rw [same] at inside
    rcases List.mem_cons.mp inside with sign | digit
    · cases sign
    · exact absurd (are _ digit) (by decide)

/-- A row as it is read, on either side of its comma. -/
theorem row_parts {line : List Char} {r : ℕ × ℕ} : row line = some r ↔ ∃ left right, Text.splitOnce ',' line = some (left,right) ∧
    Text.parseUnsigned 64 (Text.trim left) = some r.1 ∧ Text.parseUnsigned 64 (Text.trim right) = some r.2 := by
  constructor
  · intro read
    obtain ⟨⟨left,right⟩,split,parts⟩ := Option.bind_eq_some_iff.mp read
    obtain ⟨total,first,more⟩ := Option.bind_eq_some_iff.mp parts
    obtain ⟨used,second,made⟩ := Option.bind_eq_some_iff.mp more
    cases made
    exact ⟨left,right,split,first,second⟩
  · rintro ⟨left,right,split,first,second⟩
    simp only [row,split,first,second,Option.bind_eq_bind,Option.bind_some,Option.pure_def]

theorem row_eq_some {line : List Char} {r : ℕ × ℕ} : row line = some r ↔ Row line r.1 r.2 ∧ r.1 < 2 ^ 64 ∧ r.2 < 2 ^ 64 := by
  rw [row_parts]
  constructor
  · rintro ⟨left,right,split,first,second⟩
    obtain ⟨whole,front⟩ := Text.splitOnce_eq_some.mp split
    obtain ⟨total_is,total_fits⟩ := Text.parseUnsigned_eq_some.mp first
    obtain ⟨used_is,used_fits⟩ := Text.parseUnsigned_eq_some.mp second
    exact ⟨⟨left,right,whole,front,comma_free used_is,total_is,used_is⟩,total_fits,used_fits⟩
  · rintro ⟨⟨left,right,whole,front,_,total_is,used_is⟩,total_fits,used_fits⟩
    have split := Text.splitOnce_eq_some.mpr ⟨whole,front⟩
    have first := Text.parseUnsigned_eq_some.mpr ⟨total_is,total_fits⟩
    have second := Text.parseUnsigned_eq_some.mpr ⟨used_is,used_fits⟩
    exact ⟨left,right,split,first,second⟩

/-! ### The loop, line by line -/

section Loop
variable {sums : Columns} {line : List Char} {lines : List (List Char)}

/-- The first number of a line that is no row is added, where it can be read,
    before the second is. -/
theorem sumDevices_stopped (broken : row line = none) (inside : sums.total < 2 ^ 64) : sumDevices sums (line :: lines) =
    (Checked.add 64 sums.total ((leading line).getD 0)).bind fun _ => some none := by
  cases first : leading line with
  | none =>
    rw [Option.getD_none,Checked.add_of_lt inside,Option.bind_some]
    unfold leading at first
    cases split : Text.splitOnce ',' line with
    | none => simp [sumDevices,split]
    | some parts =>
      rw [split,Option.bind_some] at first
      simp [sumDevices,split,first]
  | some a =>
    obtain ⟨⟨left,right⟩,split,total⟩ := Option.bind_eq_some_iff.mp first
    have used : Text.parseUnsigned 64 (Text.trim right) = none := by
      by_contra some_used
      obtain ⟨b,read⟩ := Option.ne_none_iff_exists'.mp some_used
      rw [row_parts (r := (a,b)).mpr ⟨left,right,split,total,read⟩] at broken
      cases broken
    simp [sumDevices,split,total,used]

theorem sumDevices_row {a b : ℕ} (read : row line = some (a,b)) : sumDevices sums (line :: lines) =
    (Checked.add 64 sums.total a).bind fun total => (Checked.add 64 sums.used b).bind fun used =>
      (Checked.add 31 sums.devices 1).bind fun devices => sumDevices ⟨total,used,devices⟩ lines := by
  obtain ⟨left,right,split,first,second⟩ := row_parts.mp read
  simp [sumDevices,split,first,second]

/-! ### The sums of the loop -/

/-- The sums are values of their types. -/
structure InRange (sums : Columns) : Prop where
  total : sums.total < 2 ^ 64
  used : sums.used < 2 ^ 64
  devices : sums.devices < 2 ^ 31

theorem Fits.inRange (fits : Fits sums lines) : InRange sums where
  total := by have := fits.total; omega
  used := by have := fits.used; omega
  devices := by have := fits.devices; omega

theorem fits_nil (inside : InRange sums) : Fits sums [] where
  total := inside.total
  used := inside.used
  devices := inside.devices

theorem fits_stopped (broken : row line = none) (inside : InRange sums) :
    Fits sums (line :: lines) ↔ sums.total + (leading line).getD 0 < 2 ^ 64 := by
  have stops := readInFront_unread broken lines
  constructor
  · intro fits
    have total := fits.total
    rw [stops] at total
    simpa using total
  · intro within
    constructor
    · rw [stops]
      simpa using within
    · rw [stops]
      exact inside.used
    · rw [stops]
      exact inside.devices

/-- A row is counted, and the rest goes on from there. -/
theorem fits_row {a b : ℕ} (read : row line = some (a,b)) :
    Fits sums (line :: lines) ↔ Fits ⟨sums.total + a,sums.used + b,sums.devices + 1⟩ lines := by
  have goes := readInFront_read read lines
  constructor
  · rintro ⟨total,used,devices⟩
    rw [goes] at total used devices
    simp only [List.map_cons,List.sum_cons,List.length_cons,List.drop_succ_cons] at total used devices
    constructor
    · simpa only [Nat.add_assoc] using total
    · simpa only [Nat.add_assoc] using used
    · dsimp only
      omega
  · rintro ⟨total,used,devices⟩
    dsimp only at total used devices
    constructor
    · rw [goes]
      simpa only [List.map_cons,List.sum_cons,List.length_cons,List.drop_succ_cons,Nat.add_assoc] using total
    · rw [goes]
      simpa only [List.map_cons,List.sum_cons,Nat.add_assoc] using used
    · rw [goes,List.length_cons]
      omega

/-- One row is added where all three sums stay in their range. -/
theorem sumDevices_added {a b : ℕ} (read : row line = some (a,b))
    (inside : InRange ⟨sums.total + a,sums.used + b,sums.devices + 1⟩) :
    sumDevices sums (line :: lines) = sumDevices ⟨sums.total + a,sums.used + b,sums.devices + 1⟩ lines := by
  rw [sumDevices_row read,Checked.add_of_lt inside.total,Option.bind_some,Checked.add_of_lt inside.used,Option.bind_some,
    Checked.add_of_lt inside.devices,Option.bind_some]

theorem sumDevices_exceeded {a b : ℕ} (read : row line = some (a,b))
    (outside : ¬ InRange ⟨sums.total + a,sums.used + b,sums.devices + 1⟩) : sumDevices sums (line :: lines) = none := by
  rw [sumDevices_row read]
  by_cases total : sums.total + a < 2 ^ 64
  · rw [Checked.add_of_lt total,Option.bind_some]
    by_cases used : sums.used + b < 2 ^ 64
    · rw [Checked.add_of_lt used,Option.bind_some]
      have devices : ¬ sums.devices + 1 < 2 ^ 31 := fun devices => outside ⟨total,used,devices⟩
      rw [Checked.add_of_ge devices,Option.bind_none]
    · rw [Checked.add_of_ge used,Option.bind_none]
  · rw [Checked.add_of_ge total,Option.bind_none]

theorem sumDevices_rows {rows : List (ℕ × ℕ)} (all : List.Forall₂ (fun line r => row line = some r) lines rows)
    (fits : Fits sums lines) : sumDevices sums lines = some (some ⟨sums.total + (rows.map Prod.fst).sum,
      sums.used + (rows.map Prod.snd).sum,sums.devices + rows.length⟩) := by
  induction all generalizing sums with
  | nil => rfl
  | @cons line r lines rows read _ ih =>
    have onward := (fits_row read).mp fits
    rw [sumDevices_added read onward.inRange,ih onward]
    simp only [List.map_cons,List.sum_cons,List.length_cons,Nat.add_assoc,Nat.add_comm 1]

theorem sumDevices_stops (unread : ∃ line ∈ lines, row line = none) (fits : Fits sums lines) : sumDevices sums lines = some none := by
  induction lines generalizing sums with
  | nil => exact absurd unread (by simp)
  | cons line lines ih =>
    cases read : row line with
    | none =>
      have added := Checked.add_of_lt ((fits_stopped read fits.inRange).mp fits)
      rw [sumDevices_stopped read fits.inRange.total,added,Option.bind_some]
    | some r =>
      have onward := (fits_row read).mp fits
      rw [sumDevices_added read onward.inRange]
      exact ih (unread_later unread read) onward

/-- The first sum to leave its range panics. -/
theorem sumDevices_panics (inside : InRange sums) (exceeds : ¬ Fits sums lines) : sumDevices sums lines = none := by
  induction lines generalizing sums with
  | nil => exact absurd (fits_nil inside) exceeds
  | cons line lines ih =>
    cases read : row line with
    | none =>
      rw [fits_stopped read inside] at exceeds
      rw [sumDevices_stopped read inside.total,Checked.add_of_ge exceeds,Option.bind_none]
    | some r =>
      by_cases within : InRange ⟨sums.total + r.1,sums.used + r.2,sums.devices + 1⟩
      · rw [sumDevices_added read within]
        exact ih within fun onward => exceeds ((fits_row read).mpr onward)
      · exact sumDevices_exceeded read within

end Loop

/-! ### The text as a whole -/

/-- No sum over the text leaves its range before the reading ends. -/
def DeviceFits (text : List Char) : Prop := Fits ⟨0,0,0⟩ (filled text)

theorem rows_read {lines : List (List Char)} {rows : List (ℕ × ℕ)} (all : List.Forall₂ (fun line r => Row line r.1 r.2) lines rows)
    (totals : (rows.map Prod.fst).sum < 2 ^ 64) (used : (rows.map Prod.snd).sum < 2 ^ 64) :
    List.Forall₂ (fun line r => row line = some r) lines rows := by
  induction all with
  | nil => exact .nil
  | cons is _ ih =>
    rw [List.map_cons,List.sum_cons] at totals used
    exact .cons (row_eq_some.mpr ⟨is,by omega,by omega⟩) (ih (by omega) (by omega))

section Device
variable {text : List Char}

theorem device_of_rows (fits : DeviceFits text) {rows : List (ℕ × ℕ)}
    (all : List.Forall₂ (fun line r => row line = some r) (filled text) rows) :
    device text = some (if 0 < rows.length then some ⟨(rows.map Prod.fst).sum,(rows.map Prod.snd).sum⟩ else none) := by
  have summed := sumDevices_rows all fits
  rw [Nat.zero_add,Nat.zero_add,Nat.zero_add] at summed
  unfold filled at summed
  simp only [device,summed,Option.bind_eq_bind,Option.bind_some,Option.pure_def,gt_iff_lt]

theorem device_of_unread (fits : DeviceFits text) (unread : ∃ line ∈ filled text, row line = none) : device text = some none := by
  have stops := sumDevices_stops unread fits
  unfold filled at stops
  simp only [device,stops,Option.bind_eq_bind,Option.bind_some,Option.pure_def]

theorem device_panics (exceeds : ¬ DeviceFits text) : device text = none := by
  have panics := sumDevices_panics ⟨by decide,by decide,by decide⟩ exceeds
  unfold filled at panics
  simp only [device,panics,Option.bind_eq_bind,Option.bind_none]

theorem reported_iff {rows : List (ℕ × ℕ)} (fits : DeviceFits text)
    (all : List.Forall₂ (fun line r => row line = some r) (filled text) rows) (memory : DeviceMemory) :
    Reported text memory ↔ rows ≠ [] ∧ memory = ⟨(rows.map Prod.fst).sum,(rows.map Prod.snd).sum⟩ := by
  constructor
  · rintro ⟨others,are,some_row,total_is,used_is,total,used⟩
    rw [total_is] at total
    rw [used_is] at used
    have same : rows = others := (readInFront_all all).symm.trans (readInFront_all (rows_read are total used))
    rw [same,← total_is,← used_is]
    exact ⟨some_row,rfl⟩
  · rintro ⟨some_row,rfl⟩
    have total := fits.total
    have used := fits.used
    rw [readInFront_all all] at total used
    dsimp only at total used
    exact ⟨rows,all.imp fun line r read => (row_eq_some.mp read).1,some_row,rfl,rfl,by dsimp only; omega,by dsimp only; omega⟩

theorem not_reported {memory : DeviceMemory} (unread : ∃ line ∈ filled text, row line = none) : ¬ Reported text memory := by
  rintro ⟨rows,are,_,total_is,used_is,total,used⟩
  obtain ⟨line,member,none⟩ := unread
  rw [total_is] at total
  rw [used_is] at used
  exact read_of_all (rows_read are total used) member none

theorem device_exact_iff : DeviceExact text ↔ DeviceFits text := by
  constructor
  · intro exact_figure
    by_contra exceeds
    exact exact_figure.calm (device_panics exceeds)
  · intro fits
    rcases all_or_unread row (filled text) with ⟨rows,all⟩ | unread
    · have is := device_of_rows fits all
      refine ⟨fun memory => ?_,by rw [is]; simp⟩
      rw [reported_iff fits all,is,← List.length_pos_iff]
      split_ifs with some_row
      · simp [some_row,eq_comm]
      · simp [some_row]
    · have is := device_of_unread fits unread
      refine ⟨fun memory => ?_,by rw [is]; simp⟩
      rw [is]
      exact iff_of_false (by simp) (not_reported unread)

/-- A figure that is given is what the text reports. -/
theorem device_reported {memory : DeviceMemory} (is : device text = some (some memory)) : Reported text memory := by
  have fits : DeviceFits text := by
    by_contra exceeds
    rw [device_panics exceeds] at is
    cases is
  exact ((device_exact_iff.mpr fits).figure memory).mp is

end Device

/-! ## What one process holds -/

section Process
variable {pid : UInt32} {text line : List Char} {lines : List (List Char)} {used : Option ℕ}

/-- The line begins with the process, in front of its first comma. -/
def Names (pid : UInt32) (line : List Char) : Prop :=
  ∃ left right, line = left ++ ',' :: right ∧ ',' ∉ left ∧ Numeral (Text.trim left) pid.toNat

/-- The line has a number behind its first comma. -/
def Carries (line : List Char) (used : ℕ) : Prop :=
  ∃ left right, line = left ++ ',' :: right ∧ ',' ∉ left ∧ Numeral (Text.trim right) used

def carried (line : List Char) : Option ℕ :=
  (Text.splitOnce ',' line).bind fun (_,right) => Text.parseUnsigned 64 (Text.trim right)

theorem carried_eq_some {n : ℕ} : carried line = some n ↔ Carries line n ∧ n < 2 ^ 64 := by
  constructor
  · intro read
    obtain ⟨⟨left,right⟩,split,parsed⟩ := Option.bind_eq_some_iff.mp read
    obtain ⟨whole,front⟩ := Text.splitOnce_eq_some.mp split
    obtain ⟨is,fits⟩ := Text.parseUnsigned_eq_some.mp parsed
    exact ⟨⟨left,right,whole,front,is⟩,fits⟩
  · rintro ⟨⟨left,right,whole,front,is⟩,fits⟩
    have split := Text.splitOnce_eq_some.mpr ⟨whole,front⟩
    have parsed := Text.parseUnsigned_eq_some.mpr ⟨is,fits⟩
    simp only [carried,split,parsed,Option.bind_some]

theorem names_iff : Names pid line ↔
    ((Text.splitOnce ',' line).bind fun (left,_) => Text.parseUnsigned 32 (Text.trim left)) = some pid.toNat := by
  rw [Option.bind_eq_some_iff]
  constructor
  · rintro ⟨left,right,whole,front,is⟩
    exact ⟨(left,right),Text.splitOnce_eq_some.mpr ⟨whole,front⟩,Text.parseUnsigned_eq_some.mpr ⟨is,pid.toNat_lt⟩⟩
  · rintro ⟨⟨left,right⟩,split,parsed⟩
    obtain ⟨whole,front⟩ := Text.splitOnce_eq_some.mp split
    exact ⟨left,right,whole,front,(Text.parseUnsigned_eq_some.mp parsed).1⟩

instance : DecidablePred (Names pid) := fun _ => decidable_of_iff' _ names_iff

/-- The lines that name the process. -/
def named (text : List Char) (pid : UInt32) : List (List Char) := (Text.lines text).filter fun line => Names pid line

/-- What a text reports of a process: a line names it, every line that does has
    a number, and the figure is their sum, which fits. -/
def Held (text : List Char) (pid : UInt32) (mib : ℕ) : Prop :=
  ∃ used : List ℕ, List.Forall₂ Carries (named text pid) used ∧ used ≠ [] ∧ mib = used.sum ∧ mib < 2 ^ 64

/-- A figure is given exactly where the text reports it, and anything else is
    unknown. -/
structure AppsExact (text : List Char) (pid : UInt32) : Prop where
  figure : ∀ mib, computeApps text pid = some (some mib) ↔ Held text pid mib
  calm : computeApps text pid ≠ none

/-- The sum stays in its range up to the first line with the process and no
    number. -/
def AppsFit (text : List Char) (pid : UInt32) : Prop := (readInFront carried (named text pid)).sum < 2 ^ 64

/-! ### The loop over the lines that name the process -/

/-- The loop over lines that all name the process. -/
def addUsed (used : Option ℕ) : List (List Char) → Option (Option ℕ)
  | [] => some used
  | line :: rest => match carried line with
    | none => some none
    | some mib => (Checked.add 64 (used.getD 0) mib).bind fun sum => addUsed (some sum) rest

theorem sumUsed_eq (pid : UInt32) (used : Option ℕ) (lines : List (List Char)) :
    sumUsed pid used lines = addUsed used (lines.filter fun line => Names pid line) := by
  induction lines generalizing used with
  | nil => rfl
  | cons line lines ih =>
    by_cases naming : Names pid line
    · rw [List.filter_cons_of_pos (by simpa using naming)]
      obtain ⟨⟨left,right⟩,split,parsed⟩ := Option.bind_eq_some_iff.mp (names_iff.mp naming)
      dsimp only at parsed
      have read : carried line = Text.parseUnsigned 64 (Text.trim right) := by rw [carried,split,Option.bind_some]
      simp only [sumUsed,addUsed,split,parsed,read,ne_eq,not_true_eq_false,if_false]
      cases Text.parseUnsigned 64 (Text.trim right) with
      | none => rfl
      | some mib => simp only [ih]
    · rw [List.filter_cons_of_neg (by simpa using naming),← ih]
      rw [names_iff] at naming
      cases split : Text.splitOnce ',' line with
      | none => simp only [sumUsed,split]
      | some parts =>
        rw [split,Option.bind_some] at naming
        simp only [sumUsed,split]
        exact if_pos naming

theorem addUsed_all {numbers : List ℕ} (all : List.Forall₂ (fun line n => carried line = some n) lines numbers)
    (fits : used.getD 0 + numbers.sum < 2 ^ 64) :
    addUsed used lines = some (if numbers = [] then used else some (used.getD 0 + numbers.sum)) := by
  induction all generalizing used with
  | nil => rfl
  | @cons line n lines numbers read _ ih =>
    rw [List.sum_cons] at fits
    have added : Checked.add 64 (used.getD 0) n = some (used.getD 0 + n) := Checked.add_of_lt (by omega)
    have onward : (some (used.getD 0 + n)).getD 0 + numbers.sum < 2 ^ 64 := by
      rw [Option.getD_some]
      omega
    simp only [addUsed,read,added,Option.bind_some]
    rw [ih onward,if_neg (List.cons_ne_nil _ _),List.sum_cons,Option.getD_some]
    split_ifs with last
    · rw [last,List.sum_nil,Nat.add_zero]
    · rw [Nat.add_assoc]

theorem addUsed_stops (unread : ∃ line ∈ lines, carried line = none)
    (fits : used.getD 0 + (readInFront carried lines).sum < 2 ^ 64) : addUsed used lines = some none := by
  induction lines generalizing used with
  | nil => exact absurd unread (by simp)
  | cons line lines ih =>
    cases read : carried line with
    | none => simp only [addUsed,read]
    | some n =>
      rw [readInFront_read read,List.sum_cons] at fits
      have added : Checked.add 64 (used.getD 0) n = some (used.getD 0 + n) := Checked.add_of_lt (by omega)
      simp only [addUsed,read,added,Option.bind_some]
      apply ih (unread_later unread read)
      rw [Option.getD_some]
      omega

theorem addUsed_panics (inside : used.getD 0 < 2 ^ 64) (exceeds : ¬ used.getD 0 + (readInFront carried lines).sum < 2 ^ 64) :
    addUsed used lines = none := by
  induction lines generalizing used with
  | nil => exact absurd inside exceeds
  | cons line lines ih =>
    cases read : carried line with
    | none =>
      rw [readInFront_unread read] at exceeds
      exact absurd inside exceeds
    | some n =>
      rw [readInFront_read read,List.sum_cons] at exceeds
      by_cases within : used.getD 0 + n < 2 ^ 64
      · simp only [addUsed,read,Checked.add_of_lt within,Option.bind_some]
        refine ih (by rwa [Option.getD_some]) ?_
        rw [Option.getD_some]
        omega
      · simp only [addUsed,read,Checked.add_of_ge within,Option.bind_none]

/-! ### The text as a whole -/

theorem carries_read {numbers : List ℕ} (all : List.Forall₂ Carries lines numbers) (fits : numbers.sum < 2 ^ 64) :
    List.Forall₂ (fun line n => carried line = some n) lines numbers := by
  induction all with
  | nil => exact .nil
  | cons is _ ih =>
    rw [List.sum_cons] at fits
    exact .cons (carried_eq_some.mpr ⟨is,by omega⟩) (ih (by omega))

theorem apps_of_all (fits : AppsFit text pid) {numbers : List ℕ}
    (all : List.Forall₂ (fun line n => carried line = some n) (named text pid) numbers) :
    computeApps text pid = some (if numbers = [] then none else some numbers.sum) := by
  rw [AppsFit,readInFront_all all] at fits
  have summed : addUsed none (named text pid) = some (if numbers = [] then none else some ((none : Option ℕ).getD 0 + numbers.sum)) :=
    addUsed_all all (by rwa [Option.getD_none,Nat.zero_add])
  rw [Option.getD_none,Nat.zero_add] at summed
  exact (sumUsed_eq pid none _).trans summed

theorem apps_of_unread (fits : AppsFit text pid) (unread : ∃ line ∈ named text pid, carried line = none) :
    computeApps text pid = some none := by
  have stops : addUsed none (named text pid) = some none := addUsed_stops unread (by rwa [Option.getD_none,Nat.zero_add])
  exact (sumUsed_eq pid none _).trans stops

theorem apps_panic (exceeds : ¬ AppsFit text pid) : computeApps text pid = none := by
  have panics : addUsed none (named text pid) = none := addUsed_panics (by decide) (by rwa [Option.getD_none,Nat.zero_add])
  exact (sumUsed_eq pid none _).trans panics

theorem held_iff (fits : AppsFit text pid) {numbers : List ℕ}
    (all : List.Forall₂ (fun line n => carried line = some n) (named text pid) numbers) (mib : ℕ) :
    Held text pid mib ↔ numbers ≠ [] ∧ mib = numbers.sum := by
  rw [AppsFit,readInFront_all all] at fits
  constructor
  · rintro ⟨others,are,some_number,rfl,within⟩
    have same : numbers = others := (readInFront_all all).symm.trans (readInFront_all (carries_read are within))
    rw [same]
    exact ⟨some_number,rfl⟩
  · rintro ⟨some_number,rfl⟩
    exact ⟨numbers,all.imp fun line n read => (carried_eq_some.mp read).1,some_number,rfl,fits⟩

theorem not_held {mib : ℕ} (unread : ∃ line ∈ named text pid, carried line = none) : ¬ Held text pid mib := by
  rintro ⟨numbers,are,_,rfl,within⟩
  obtain ⟨line,member,none⟩ := unread
  exact read_of_all (carries_read are within) member none

theorem apps_exact_iff : AppsExact text pid ↔ AppsFit text pid := by
  constructor
  · intro exact_figure
    by_contra exceeds
    exact exact_figure.calm (apps_panic exceeds)
  · intro fits
    rcases all_or_unread carried (named text pid) with ⟨numbers,all⟩ | unread
    · have is := apps_of_all fits all
      refine ⟨fun mib => ?_,by rw [is]; simp⟩
      rw [held_iff fits all,is]
      split_ifs with empty
      · simp [empty]
      · simp [empty,eq_comm]
    · have is := apps_of_unread fits unread
      refine ⟨fun mib => ?_,by rw [is]; simp⟩
      rw [is]
      exact iff_of_false (by simp) (not_held unread)

/-- A figure that is given is what the text reports. -/
theorem apps_held {mib : ℕ} (is : computeApps text pid = some (some mib)) : Held text pid mib := by
  have fits : AppsFit text pid := by
    by_contra exceeds
    rw [apps_panic exceeds] at is
    cases is
  exact ((apps_exact_iff.mpr fits).figure mib).mp is

end Process

/-! ## Exact or unknown -/

/-- Either reading gives what its text reports, or nothing, exactly where its
    sums stay in their range until it ends. -/
theorem figures_exact_iff (text : List Char) (pid : UInt32) :
    (DeviceExact text ↔ DeviceFits text) ∧ (AppsExact text pid ↔ AppsFit text pid) :=
  ⟨device_exact_iff,apps_exact_iff⟩

/-- The largest figure there is, and one more on the next line. -/
def beyondDevice : List Char := "18446744073709551615, 0\n1, 0\n".toList

def beyondApps : List Char := "7, 18446744073709551615\n7, 1\n".toList

theorem sums_beyond_range_panic : ¬ DeviceExact beyondDevice ∧ ¬ AppsExact beyondApps 7 := by
  constructor
  · intro exact_figure
    exact exact_figure.calm (by decide +kernel)
  · intro exact_figure
    exact exact_figure.calm (by decide +kernel)

/-! ## What a machine's probe passes on -/

/-- A machine's device figure is what its tool's text reports. -/
theorem Probe.device_reported {tools : Tools} {machine : Memory.Machine} {memory : DeviceMemory}
    (is : (Probe.Machine machine).device tools = some (some memory)) :
    ∃ tool text, machine.nvidiaSmi = some tool ∧ query tools tool DEVICE_QUERY = some text ∧ Reported text memory := by
  cases printed : machine.nvidiaSmi.bind fun tool => query tools tool DEVICE_QUERY with
  | none => simp [Probe.device,printed] at is
  | some text =>
    obtain ⟨tool,there,answered⟩ := Option.bind_eq_some_iff.mp printed
    simp only [Probe.device,printed] at is
    exact ⟨tool,text,there,answered,Memory.device_reported is⟩

theorem Probe.measure_held {tools : Tools} {machine : Memory.Machine} {pid : UInt32} {measurement : Measurement} {mib : ℕ}
    (is : (Probe.Machine machine).measure tools pid = some measurement) (known : measurement.deviceMib = some mib) :
    ∃ tool text, machine.nvidiaSmi = some tool ∧ query tools tool PROCESS_QUERY = some text ∧ Held text pid mib := by
  cases printed : machine.nvidiaSmi.bind fun tool => query tools tool PROCESS_QUERY with
  | none =>
    simp only [Probe.measure,printed,Option.map_some,Option.some.injEq] at is
    rw [← is] at known
    cases known
  | some text =>
    obtain ⟨tool,there,answered⟩ := Option.bind_eq_some_iff.mp printed
    simp only [Probe.measure,printed] at is
    obtain ⟨device,figure,rfl⟩ := Option.map_eq_some_iff.mp is
    have device_is : device = some mib := known
    rw [device_is] at figure
    exact ⟨tool,text,there,answered,apps_held figure⟩

end Maestro.Memory
