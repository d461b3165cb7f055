import Maestro.Memory
import Maestro.Starting

/-!
# What an entry actually costs

One entry after the other is started, measured and stopped. What is used of the
card is read before the start and, where the process itself is not told of,
after it: the difference is what that process holds because no other process of
the command holds anything meanwhile.
-/
namespace Maestro.Bench
open Starting (Process starting)
open Transition (System Reaches)

/-! ## One entry -/

/-- What one entry turned out to cost. -/
structure Measurement where
  id : String
  /-- What the catalog claimed. -/
  declaredMib : ℕ
  /-- What the card said the process held, when it could be read. -/
  measuredMib : Option ℕ
deriving DecidableEq, Repr

/-- A figure, where it is one of 32 bits. -/
def u32 (mib : ℕ) : Option ℕ := if mib < 2 ^ 32 then some mib else none

/-- What the use of the card has grown by, if it has. -/
def grown (before after : ℕ) : Option ℕ := (Checked.sub after before).filter (0 < ·)

/-- What is done with the entry in hand, from its start on. -/
inductive Work
  | Loading (before : Option ℕ)
  | Measuring (before : Option ℕ)
  | Comparing (before : ℕ)
  | Asking (measuredMib : Option ℕ)

/-- A figure beyond its range panics, and whatever has been started is dropped. -/
inductive Stage
  | Reading
  | Doing (start : Starting.State) (work : Work)
  | Panicked

/-- The entries still to be measured, of which the first is in hand, and a row
    for each that is done with. -/
structure State where
  wanted : List Entry
  rows : List (Entry × Except Failure Measurement)
  stage : Stage
  /-- The processes of entries that are done with. -/
  past : List (Entry × Process)

/-- What the machine does of itself, and what it answers the command. -/
inductive Event
  | Outside (outside : Starting.Outside)
  | Device (device : Option (Option DeviceMemory))
  | Look (look : Starting.Look)
  | Measured (measurement : Option Maestro.Measurement)
  | Asked

namespace State
variable (self : State)

/-- Nothing more is done with what was started for the entry. -/
def leaves (entry : Entry) (start : Starting.State) (stage : Stage) : State :=
  { self with stage, past := self.past ++ start.spawned.map (entry,·) }

def done (entry : Entry) (rest : List Entry) (start : Starting.State) (row : Except Failure Measurement) : State :=
  { self.leaves entry start .Reading with wanted := rest, rows := self.rows ++ [(entry,row)] }

/-- The start has been taken one look further. -/
def loads (entry : Entry) (rest : List Entry) (before : Option ℕ) (start : Starting.State) : State :=
  match start.phase with
  | .Returned (.error failure) => self.done entry rest start (.error failure)
  | .Returned (.ok _) => { self with stage := .Doing start (.Measuring before) }
  | _ => { self with stage := .Doing start (.Loading before) }

/-- The figure of the process itself, or where there is none a comparison with
    the one before. -/
def compares (start : Starting.State) (before : Option ℕ) : Option ℕ → State
  | some mib => { self with stage := .Doing start (.Asking (u32 mib)) }
  | none => match before with
    | some before => { self with stage := .Doing start (.Comparing before) }
    | none => { self with stage := .Doing start (.Asking none) }

end State

section
variable (machine : Launch.Machine) (server : Launch.Server) (root : String)

def State.step (self : State) (event : Event) : Option State :=
  match self.wanted, self.stage, event with
  | entry :: _, .Reading, .Device (some device) =>
    some { self with stage := .Doing (starting machine server entry root).initial (.Loading (device.map DeviceMemory.usedMib)) }
  | _ :: _, .Reading, .Device none => some { self with stage := .Panicked }
  | entry :: rest, .Doing start (.Loading before), .Look look =>
    (start.look machine server entry root start.phase look).map (self.loads entry rest before)
  | _ :: _, .Doing start (.Measuring before), .Measured (some measurement) =>
    some (self.compares start before measurement.deviceMib)
  | entry :: _, .Doing start (.Measuring _), .Measured none => some (self.leaves entry start.dropped .Panicked)
  | _ :: _, .Doing start (.Comparing before), .Device (some device) =>
    some { self with stage := .Doing start (.Asking ((device.bind fun device => grown before device.usedMib).bind u32)) }
  | entry :: _, .Doing start (.Comparing _), .Device none => some (self.leaves entry start.dropped .Panicked)
  -- The rate that was asked for, or that there is none, is left out.
  | entry :: rest, .Doing start (.Asking measuredMib), .Asked =>
    some (self.done entry rest start.dropped (.ok ⟨entry.id,entry.memoryEstimateMib,measuredMib⟩))
  | _ :: _, .Doing start work, .Outside outside => (start.outside outside).map fun start => { self with stage := .Doing start work }
  | _, _, _ => none

/-- The loop over the entries that were asked for. -/
def command (wanted : List Entry) : System State Event where
  initial := ⟨wanted,[],.Reading,[]⟩
  step := State.step machine server root

end

/-- The entries that are asked for: all, or those of one identifier. -/
def wanted (path : String) (parsed : Catalog) (only : Option String) : Except String (List Entry) :=
  let wanted := parsed.entries.filter fun entry => only.all (entry.id = ·)
  let id := only.getD ""
  if wanted.isEmpty then .error s!"no entry called '{id}' in {path}" else .ok wanted

theorem u32_eq_some {mib figure : ℕ} : u32 mib = some figure ↔ mib < 2 ^ 32 ∧ mib = figure := by
  unfold u32
  split_ifs with fits
  · simp only [Option.some.injEq,fits,true_and]
  · simp only [fits,false_and]

theorem grown_eq_some {before after figure : ℕ} :
    grown before after = some figure ↔ 0 < figure ∧ after = before + figure := by
  rw [grown,Option.filter_eq_some_iff]
  unfold Checked.sub
  split_ifs with larger <;> simp <;> omega

/-! ## What is recommended -/

/-- A twentieth above what was measured, up to a whole number of quarter
    gibibytes. -/
def Measurement.recommendedMib (self : Measurement) : Option (Option ℕ) :=
  match self.measuredMib with
  | none => some none
  | some measured => do
    let withRoom ← Checked.add 32 measured (measured / 20)
    return some (← Checked.mul 32 ((withRoom + 255) / 256) 256)

/-- The rows of a catalog that are to be corrected. -/
def corrections (measured : List Measurement) : Option (List (Measurement × ℕ)) := do
  let wants ← measured.mapM fun reading => reading.recommendedMib.map fun wants => (reading,wants)
  return wants.filterMap fun (reading,wants) => (wants.filter (· ≠ reading.declaredMib)).map (reading,·)

/-- What is recommended clears the measurement and the twentieth over it, and is
    less than a step above both. -/
theorem recommendedMib_spec {reading : Measurement} {measured wants : ℕ} (is : reading.measuredMib = some measured)
    (recommended : reading.recommendedMib = some (some wants)) :
    measured + measured / 20 ≤ wants ∧ wants < measured + measured / 20 + 256 ∧ 256 ∣ wants := by
  rw [Measurement.recommendedMib,is] at recommended
  obtain ⟨withRoom,added,recommended⟩ := Option.bind_eq_some_iff.mp recommended
  obtain ⟨steps,scaled,same⟩ := Option.bind_eq_some_iff.mp recommended
  cases same
  obtain ⟨_,rfl⟩ := Checked.add_eq_some.mp added
  obtain ⟨_,rfl⟩ := Checked.mul_eq_some.mp scaled
  refine ⟨?_,?_,Nat.dvd_mul_left 256 _⟩ <;> omega

/-- The row of an entry whose estimate is what was recommended for it. -/
def Measurement.corrected (self : Measurement) : Measurement :=
  { self with declaredMib := (self.recommendedMib.getD none).getD self.declaredMib }

theorem recommendedMib_corrected (reading : Measurement) : reading.corrected.recommendedMib = reading.recommendedMib := rfl

theorem corrections_cons (reading : Measurement) (rest : List Measurement) :
    corrections (reading :: rest) = reading.recommendedMib.bind fun wants => (corrections rest).map fun corrections =>
      ((wants.filter (· ≠ reading.declaredMib)).map (reading,·)).toList ++ corrections := by
  rw [corrections,corrections,List.mapM_cons]
  cases reading.recommendedMib with
  | none => rfl
  | some wants =>
    cases rest.mapM fun reading => reading.recommendedMib.map fun wants => (reading,wants) with
    | none => rfl
    | some others =>
      simp only [Option.map_some,Option.bind_eq_bind,Option.bind_some,Option.pure_def,List.filterMap_cons]
      cases (wants.filter (· ≠ reading.declaredMib)).map (reading,·) <;> rfl

/-- One round of corrections is enough: the same measurements recommend nothing
    more. -/
theorem corrections_settle {measured : List Measurement} {advice : List (Measurement × ℕ)}
    (is : corrections measured = some advice) : corrections (measured.map Measurement.corrected) = some [] := by
  induction measured generalizing advice with
  | nil => rfl
  | cons reading rest ih =>
    rw [corrections_cons] at is
    obtain ⟨wants,recommended,others⟩ := Option.bind_eq_some_iff.mp is
    obtain ⟨other,corrected,rfl⟩ := Option.map_eq_some_iff.mp others
    rw [List.map_cons,corrections_cons,recommendedMib_corrected,recommended,Option.bind_some,ih corrected,Option.map_some]
    cases wants with
    | none => rfl
    | some wants => simp [Measurement.corrected,recommended]

/-! ## What a step does -/

section
variable {machine : Launch.Machine} {server : Launch.Server} {root : String} {all : List Entry} {s s' : State}

/-- The child has been handed out. -/
def Work.loaded : Work → Bool
  | .Loading _ => false
  | _ => true

/-- What one step comes to. -/
inductive Did (machine : Launch.Machine) (server : Launch.Server) (root : String) (s : State) : Event → State → Prop
  | reads {entry : Entry} {rest : List Entry} {device : Option DeviceMemory} (wanted : s.wanted = entry :: rest)
    (stage : s.stage = .Reading) :
    Did machine server root s (.Device (some device))
      { s with stage := .Doing (starting machine server entry root).initial (.Loading (device.map DeviceMemory.usedMib)) }
  | unread (stage : s.stage = .Reading) : Did machine server root s (.Device none) { s with stage := .Panicked }
  | looks {entry : Entry} {rest : List Entry} {start after : Starting.State} {before : Option ℕ} {look : Starting.Look}
    (wanted : s.wanted = entry :: rest) (stage : s.stage = .Doing start (.Loading before))
    (steps : (starting machine server entry root).step start (.Look look) = some after) :
    Did machine server root s (.Look look) (s.loads entry rest before after)
  | compares {start : Starting.State} {before : Option ℕ} {measurement : Maestro.Measurement}
    (stage : s.stage = .Doing start (.Measuring before)) :
    Did machine server root s (.Measured (some measurement)) (s.compares start before measurement.deviceMib)
  | grows {start : Starting.State} {before : ℕ} {device : Option DeviceMemory}
    (stage : s.stage = .Doing start (.Comparing before)) :
    Did machine server root s (.Device (some device))
      { s with stage := .Doing start (.Asking ((device.bind fun device => grown before device.usedMib).bind u32)) }
  | panics {entry : Entry} {rest : List Entry} {start : Starting.State} {work : Work} {event : Event}
    (wanted : s.wanted = entry :: rest) (stage : s.stage = .Doing start work) :
    Did machine server root s event (s.leaves entry start.dropped .Panicked)
  | asked {entry : Entry} {rest : List Entry} {start : Starting.State} {measuredMib : Option ℕ}
    (wanted : s.wanted = entry :: rest) (stage : s.stage = .Doing start (.Asking measuredMib)) :
    Did machine server root s .Asked (s.done entry rest start.dropped (.ok ⟨entry.id,entry.memoryEstimateMib,measuredMib⟩))
  | outside {entry : Entry} {rest : List Entry} {start after : Starting.State} {work : Work} {outside : Starting.Outside}
    (wanted : s.wanted = entry :: rest) (stage : s.stage = .Doing start work)
    (steps : (starting machine server entry root).step start (.Outside outside) = some after) :
    Did machine server root s (.Outside outside) { s with stage := .Doing after work }

theorem did {event : Event} (steps : (command machine server root all).step s event = some s') :
    Did machine server root s event s' := by
  change s.step machine server root event = some s' at steps
  unfold State.step at steps
  split at steps
  next wanted stage =>
    cases steps
    exact .reads wanted stage
  next stage =>
    cases steps
    exact .unread stage
  next wanted stage =>
    obtain ⟨after,looked,rfl⟩ := Option.map_eq_some_iff.mp steps
    exact .looks wanted stage looked
  next stage =>
    cases steps
    exact .compares stage
  next wanted stage =>
    cases steps
    exact .panics wanted stage
  next stage =>
    cases steps
    exact .grows stage
  next wanted stage =>
    cases steps
    exact .panics wanted stage
  next wanted stage =>
    cases steps
    exact .asked wanted stage
  next wanted stage =>
    obtain ⟨after,happened,rfl⟩ := Option.map_eq_some_iff.mp steps
    exact .outside wanted stage happened
  next => cases steps

/-! ## One at a time -/

/-- The processes of the command, each with the entry it was started for. -/
def State.processes (self : State) : List (Entry × Process) :=
  self.past ++ match self.wanted, self.stage with
    | entry :: _, .Doing start _ => start.spawned.map (entry,·)
    | _, _ => []

/-- A start has returned its child once there is something to do with it, and
    not before. -/
def Work.Fits (work : Work) (start : Starting.State) : Prop :=
  if work.loaded then ∃ answered, start.phase = .Returned (.ok answered) else ∀ result, start.phase ≠ .Returned result

theorem Work.Fits.returned {work : Work} {start : Starting.State} (fits : work.Fits start) (loaded : work.loaded = true) :
    ∃ answered, start.phase = .Returned (.ok answered) := by
  rwa [Work.Fits,if_pos loaded] at fits

theorem Work.fits_initial (entry : Entry) (before : Option ℕ) :
    (Work.Loading before).Fits (starting machine server entry root).initial := by
  rw [Work.Fits,if_neg (show ¬ (Work.Loading before).loaded = true from nofun)]
  rintro _ ⟨⟩

/-- A row says what a start of its entry can come to, and what the catalog claims
    of it. -/
def Row (machine : Launch.Machine) (server : Launch.Server) (root : String) (row : Entry × Except Failure Measurement) : Prop :=
  match row.2 with
  | .error failure => ∃ first second : Launch.Attempt Starting.Answered,
    Launch.start machine server row.1 root first second = .error failure
  | .ok measurement => measurement.id = row.1.id ∧ measurement.declaredMib = row.1.memoryEstimateMib ∧
    ∃ (first second : Launch.Attempt Starting.Answered) (answered : Starting.Answered),
      Launch.start machine server row.1 root first second = .ok answered

/-- What holds of the command in every run. -/
structure Orderly (machine : Launch.Machine) (server : Launch.Server) (root : String) (all : List Entry) (s : State) : Prop where
  covers : s.rows.map Prod.fst ++ s.wanted = all
  ended : ∀ process ∈ s.past, process.2.life.isReaped = true
  doing : ∀ start work, s.stage = .Doing start work → ∃ entry rest, s.wanted = entry :: rest ∧
    Reaches (starting machine server entry root) (fun _ _ => True) start ∧ work.Fits start
  rows : ∀ row ∈ s.rows, Row machine server root row

theorem Orderly.sound (orderly : Orderly machine server root all s) {entry : Entry} {rest : List Entry}
    {start : Starting.State} {work : Work} (wanted : s.wanted = entry :: rest) (stage : s.stage = .Doing start work) :
    Reaches (starting machine server entry root) (fun _ _ => True) start ∧ work.Fits start := by
  obtain ⟨entry',rest',is,reaches,fits⟩ := orderly.doing start work stage
  rw [wanted] at is
  cases is
  exact ⟨reaches,fits⟩

/-- What is left behind has been reaped. -/
theorem Orderly.left (orderly : Orderly machine server root all s) {entry : Entry} {start : Starting.State}
    (reaped : ∀ process ∈ start.spawned, process.life.isReaped = true) (stage : Stage) :
    ∀ process ∈ (s.leaves entry start stage).past, process.2.life.isReaped = true := by
  intro process member
  rcases List.mem_append.mp member with earlier | own
  · exact orderly.ended process earlier
  · obtain ⟨_,spawned,rfl⟩ := List.mem_map.mp own
    exact reaped _ spawned

theorem Orderly.done (orderly : Orderly machine server root all s) {entry : Entry} {rest : List Entry} {start : Starting.State}
    {row : Except Failure Measurement} (wanted : s.wanted = entry :: rest)
    (reaped : ∀ process ∈ start.spawned, process.life.isReaped = true) (said : Row machine server root (entry,row)) :
    Orderly machine server root all (s.done entry rest start row) where
  covers := by
    rw [← orderly.covers,wanted]
    simp [State.done,State.leaves]
  ended := orderly.left reaped .Reading
  doing _ _ stage := by cases stage
  rows := by
    intro other member
    rcases List.mem_append.mp member with earlier | own
    · exact orderly.rows other earlier
    · cases List.mem_singleton.mp own
      exact said

theorem Orderly.loads (orderly : Orderly machine server root all s) {entry : Entry} {rest : List Entry} {before : Option ℕ}
    {after : Starting.State} (wanted : s.wanted = entry :: rest)
    (reaches : Reaches (starting machine server entry root) (fun _ _ => True) after) :
    Orderly machine server root all (s.loads entry rest before after) := by
  rw [State.loads]
  split
  next failure returned =>
    obtain ⟨first,second,is⟩ := Starting.returns_start reaches returned
    exact orderly.done wanted ((Starting.sound_of_reaches reaches).failed failure returned) ⟨first,second,is.symm⟩
  next answered returned =>
    refine ⟨orderly.covers,orderly.ended,?_,orderly.rows⟩
    rintro _ _ ⟨⟩
    exact ⟨entry,rest,wanted,reaches,answered,returned⟩
  next failed handed =>
    refine ⟨orderly.covers,orderly.ended,?_,orderly.rows⟩
    rintro _ _ ⟨⟩
    refine ⟨entry,rest,wanted,reaches,?_⟩
    rintro (failure | answered) returned
    · exact failed failure returned
    · exact handed answered returned

theorem compares_cases (s : State) (start : Starting.State) (before device : Option ℕ) : ∃ work : Work, work.loaded = true ∧
    s.compares start before device = { s with stage := .Doing start work } := by
  cases device with
  | some mib => exact ⟨.Asking (u32 mib),rfl,rfl⟩
  | none =>
    cases before with
    | some before => exact ⟨.Comparing before,rfl,rfl⟩
    | none => exact ⟨.Asking none,rfl,rfl⟩

/-- The child is still what the start returned when there is more to do with
    it. -/
theorem Orderly.goes_on (orderly : Orderly machine server root all s) {start : Starting.State} {work next : Work}
    (stage : s.stage = .Doing start work) (loaded : work.loaded = true) (still : next.loaded = true) :
    Orderly machine server root all { s with stage := .Doing start next } := by
  refine ⟨orderly.covers,orderly.ended,?_,orderly.rows⟩
  rintro _ _ ⟨⟩
  obtain ⟨entry,rest,wanted,reaches,fits⟩ := orderly.doing start work stage
  exact ⟨entry,rest,wanted,reaches,by rw [Work.Fits,if_pos still]; exact fits.returned loaded⟩

theorem Work.Fits.beside {work : Work} {start after : Starting.State} (fits : work.Fits start) (phase : after.phase = start.phase) :
    work.Fits after := by
  rw [Work.Fits] at *
  rwa [phase]

theorem Orderly.did {event : Event} (orderly : Orderly machine server root all s) (came : Did machine server root s event s') :
    Orderly machine server root all s' := by
  cases came with
  | reads wanted stage =>
    refine ⟨orderly.covers,orderly.ended,?_,orderly.rows⟩
    rintro _ _ ⟨⟩
    exact ⟨_,_,wanted,.start,Work.fits_initial _ _⟩
  | unread stage => exact ⟨orderly.covers,orderly.ended,fun _ _ doing => (by cases doing),orderly.rows⟩
  | @looks entry rest start after before look wanted stage steps =>
    have further : Reaches (starting machine server entry root) (fun _ _ => True) after :=
      (orderly.sound wanted stage).1.next trivial steps
    exact orderly.loads wanted further
  | @compares start before measurement stage =>
    obtain ⟨work,loaded,is⟩ := compares_cases s start before measurement.deviceMib
    rw [is]
    exact orderly.goes_on stage rfl loaded
  | grows stage => exact orderly.goes_on stage rfl rfl
  | panics wanted stage =>
    have reaped := (Starting.sound_of_reaches (orderly.sound wanted stage).1).dropped
    exact ⟨orderly.covers,orderly.left reaped .Panicked,fun _ _ doing => (by cases doing),orderly.rows⟩
  | asked wanted stage =>
    obtain ⟨reaches,fits⟩ := orderly.sound wanted stage
    obtain ⟨answered,returned⟩ := fits.returned rfl
    obtain ⟨first,second,is⟩ := Starting.returns_start reaches returned
    exact orderly.done wanted (Starting.sound_of_reaches reaches).dropped ⟨rfl,rfl,first,second,answered,is.symm⟩
  | outside wanted stage steps =>
    obtain ⟨reaches,fits⟩ := orderly.sound wanted stage
    refine ⟨orderly.covers,orderly.ended,?_,orderly.rows⟩
    rintro _ _ ⟨⟩
    exact ⟨_,_,wanted,.next reaches trivial steps,fits.beside (Starting.outside_beside steps).phase⟩

theorem orderly_of_reaches {allowed : State → Event → Prop} (reached : Reaches (command machine server root all) allowed s) :
    Orderly machine server root all s :=
  reached.invariant ⟨rfl,fun _ member => absurd member List.not_mem_nil,fun _ _ doing => (by cases doing),
    fun _ member => absurd member List.not_mem_nil⟩ fun _ _ _ _ orderly _ steps => orderly.did (did steps)

/-- The process of the entry in hand. -/
def State.child (self : State) : Option (Entry × Process) :=
  match self.wanted, self.stage with
  | entry :: _, .Doing start _ => start.child.map (entry,·)
  | _, _ => none

theorem child_doing {entry : Entry} {rest : List Entry} {start : Starting.State} {work : Work} (wanted : s.wanted = entry :: rest)
    (stage : s.stage = .Doing start work) : s.child = start.child.map (entry,·) := by
  rw [State.child,wanted,stage]

theorem child_idle (idle : ∀ start work, s.stage ≠ .Doing start work) : s.child = none := by
  rw [State.child]
  split
  next stage => exact absurd stage (idle _ _)
  next => rfl

/-- Of the processes of the command all but the one in hand have been reaped. -/
theorem Orderly.filter_processes (orderly : Orderly machine server root all s) {keeps : Process → Bool}
    (gone : ∀ process, process.life.isReaped = true → keeps process = false) :
    (s.processes.filter fun process => keeps process.2) = s.child.toList.filter fun process => keeps process.2 := by
  have past : (s.past.filter fun process => keeps process.2) = [] := by
    refine List.filter_eq_nil_iff.mpr fun process member => ?_
    rw [gone _ (orderly.ended process member)]
    exact Bool.false_ne_true
  rw [State.processes,List.filter_append,past,List.nil_append,State.child]
  split
  next entry rest start work wanted stage =>
    have before : (start.before.map (entry,·)).filter (fun process => keeps process.2) = [] := by
      refine List.filter_eq_nil_iff.mpr fun process member => ?_
      obtain ⟨first,earlier,rfl⟩ := List.mem_map.mp member
      rw [gone _ ((Starting.sound_of_reaches (orderly.sound wanted stage).1).ended first earlier)]
      exact Bool.false_ne_true
    rw [Starting.State.spawned,List.map_append,List.filter_append,before,List.nil_append]
    cases start.child <;> rfl
  next => rfl

/-- A process that has not been waited for. -/
def unreaped (process : Process) : Bool := !process.life.isReaped

/-- The start in hand has come to a row: a look found that it failed, or the child
    that it returned has been measured and asked. -/
inductive Writes (machine : Launch.Machine) (server : Launch.Server) (root : String) (s : State) (entry : Entry) :
    Event → Except Failure Measurement → Prop
  | failed {start after : Starting.State} {before : Option ℕ} {look : Starting.Look} {failure : Failure}
    (stage : s.stage = .Doing start (.Loading before))
    (steps : (starting machine server entry root).step start (.Look look) = some after)
    (returned : after.phase = .Returned (.error failure)) :
    Writes machine server root s entry (.Look look) (.error failure)
  | asked {start : Starting.State} {measuredMib : Option ℕ} {answered : Starting.Answered}
    (stage : s.stage = .Doing start (.Asking measuredMib)) (returned : start.phase = .Returned (.ok answered)) :
    Writes machine server root s entry .Asked (.ok ⟨entry.id,entry.memoryEstimateMib,measuredMib⟩)

/-- A step leaves the rows and the entries as they are, or it is done with the
    first entry by the row of the start in hand. -/
def Advances (machine : Launch.Machine) (server : Launch.Server) (root : String) (s : State) (event : Event) (s' : State) : Prop :=
  (s'.rows = s.rows ∧ s'.wanted = s.wanted) ∨ ∃ entry row, s.wanted = entry :: s'.wanted ∧ s'.rows = s.rows ++ [(entry,row)] ∧
    Writes machine server root s entry event row

theorem Orderly.advances (orderly : Orderly machine server root all s) {event : Event} (came : Did machine server root s event s') :
    Advances machine server root s event s' := by
  cases came with
  | @looks entry rest start after before look wanted stage steps =>
    rw [State.loads]
    split
    next failure returned => exact .inr ⟨entry,_,wanted,rfl,.failed stage steps returned⟩
    next => exact .inl ⟨rfl,rfl⟩
    next => exact .inl ⟨rfl,rfl⟩
  | @compares start before measurement stage =>
    obtain ⟨_,_,is⟩ := compares_cases s start before measurement.deviceMib
    rw [is]
    exact .inl ⟨rfl,rfl⟩
  | asked wanted stage =>
    obtain ⟨_,returned⟩ := (orderly.sound wanted stage).2.returned rfl
    exact .inr ⟨_,_,wanted,rfl,.asked stage returned⟩
  | _ => exact .inl ⟨rfl,rfl⟩

/-- One at a time, and never two. In every run no more than one process of the
    command has not been reaped; there is none while the command reads what is
    used before a start, and none once it is over. The entries come in their
    order, each is done with by a row, and a row is written only for the start
    that is in hand, as what that start came to. -/
theorem one_at_a_time {allowed : State → Event → Prop} (reached : Reaches (command machine server root all) allowed s) :
    (s.processes.filter fun process => unreaped process.2).length ≤ 1 ∧
    ((∀ start work, s.stage ≠ .Doing start work) → (s.processes.filter fun process => unreaped process.2) = []) ∧
    (s.rows.map Prod.fst ++ s.wanted = all ∧ ∀ row ∈ s.rows, Row machine server root row) ∧
    ∀ event s', (command machine server root all).step s event = some s' → Advances machine server root s event s' := by
  have orderly := orderly_of_reaches reached
  have gone : ∀ process : Process, process.life.isReaped = true → unreaped process = false := by
    intro process reaped
    rw [unreaped,reaped]
    rfl
  rw [orderly.filter_processes gone]
  refine ⟨(List.length_filter_le _ _).trans Option.length_toList_le,fun idle => ?_,⟨orderly.covers,orderly.rows⟩,
    fun event s' steps => orderly.advances (did steps)⟩
  rw [child_idle idle]
  rfl

end

/-- An event of a start, while the command waits for it. -/
def loading : Starting.Event → Event
  | .Outside outside => .Outside outside
  | .Look look => .Look look

def benched : Entry := ⟨"m","m.gguf",none,none,4096,.OnDemand,4000,none,none,30,none,[]⟩

def benching : System State Event := command ⟨fun _ => true,none⟩ ⟨"/bin/llama-server"⟩ "/models" [benched]

/-- The start loses the race for its port once, and its second child is
    answered for. -/
def startedTwice : List Event := .Device (some (some ⟨24576,1000⟩)) :: Starting.lostRace.map loading

/-- Of the two processes that were started for one entry, the first is gone. -/
theorem second_alone : ∃ s : State, s.processes.length = 2 ∧
    (s.processes.filter fun process => unreaped process.2).length ≤ 1 := by
  have twice : (benching.run (fun _ _ => true) benching.initial startedTwice).any (fun s => decide (s.processes.length = 2)) = true := by
    decide +kernel
  obtain ⟨s,reached,passes⟩ : ∃ s, Reaches benching (fun _ _ => True) s ∧ _ := Transition.exists_of_run (fun _ _ _ => trivial) twice
  exact ⟨s,of_decide_eq_true passes,(one_at_a_time reached).1⟩

section
variable {machine : Launch.Machine} {server : Launch.Server} {root : String} {all : List Entry} {s s' : State}

/-! ## The figure of a row -/

/-- What the processes of the command hold. -/
def State.held (self : State) (holds : Entry → ℕ) : ℕ :=
  ((self.processes.filter fun process => decide (process.2.life = .Running)).map fun process => holds process.1).sum

/-- The card says what others hold, which stays the same while one entry is in
    hand, together with what the processes of the command hold. What is said of
    the process itself is what it holds. -/
structure Truthful (others : ℕ → ℕ) (holds : Entry → ℕ) (s : State) (event : Event) : Prop where
  card : ∀ device, event = .Device (some (some device)) → device.usedMib = others s.rows.length + s.held holds
  process : ∀ measurement mib, event = .Measured (some measurement) → measurement.deviceMib = some mib →
    ∀ entry ∈ s.wanted.head?, mib = holds entry

/-- The card can be asked whenever it is, and then the child that is in hand
    runs. -/
structure Steady (s : State) (event : Event) : Prop where
  card : ∀ device, event = .Device device → ∃ figures, device = some (some figures)
  runs : ∀ device, event = .Device device → ∀ start work, s.stage = .Doing start work →
    ∃ process ∈ s.child, process.2.life = .Running

theorem Orderly.held_eq (orderly : Orderly machine server root all s) (holds : Entry → ℕ) :
    s.held holds = s.child.elim 0 fun process => if process.2.life = .Running then holds process.1 else 0 := by
  have gone : ∀ process : Process, process.life.isReaped = true → decide (process.life = .Running) = false := by
    intro process reaped
    refine decide_eq_false fun running => ?_
    rw [running] at reaped
    cases reaped
  rw [State.held,orderly.filter_processes gone]
  cases s.child with
  | none => rfl
  | some process =>
    rw [Option.toList_some,Option.elim_some,List.filter_singleton]
    by_cases running : process.2.life = .Running <;> simp [running]

/-- What is held, if anything, is what the process in hand holds. -/
theorem Orderly.held_of_pos (orderly : Orderly machine server root all s) {holds : Entry → ℕ} {entry : Entry}
    {rest : List Entry} {start : Starting.State} {work : Work} (wanted : s.wanted = entry :: rest) (stage : s.stage = .Doing start work)
    (positive : 0 < s.held holds) : s.held holds = holds entry := by
  rw [orderly.held_eq,child_doing wanted stage] at positive ⊢
  generalize start.child = child at positive ⊢
  cases child with
  | none => exact absurd positive (lt_irrefl 0)
  | some process =>
    simp only [Option.map_some,Option.elim_some] at positive ⊢
    split_ifs at positive ⊢
    · rfl
    · exact absurd positive (lt_irrefl 0)

/-- What is known before and after a start, where the others hold `before` and
    the process `held`. -/
def Work.Told (steady : Prop) (before held : ℕ) : Work → Prop
  | .Loading read | .Measuring read => (∀ figure ∈ read, figure = before) ∧ (steady → read.isSome)
  | .Comparing read => read = before
  | .Asking measuredMib => (∀ mib ∈ measuredMib, mib = held) ∧
    (steady → 0 < held → held < 2 ^ 32 → measuredMib = some held)

/-- What is told of the entry in hand, and of those that are done with. -/
structure Told (steady : Prop) (others : ℕ → ℕ) (holds : Entry → ℕ) (s : State) : Prop where
  work : ∀ start work, s.stage = .Doing start work → ∀ entry ∈ s.wanted.head?,
    work.Told steady (others s.rows.length) (holds entry)
  rows : ∀ row ∈ s.rows, ∀ measurement, row.2 = .ok measurement →
    (Work.Asking measurement.measuredMib).Told steady 0 (holds row.1)

section
variable {steady : Prop} {others : ℕ → ℕ} {holds : Entry → ℕ}

theorem Told.idle (told : Told steady others holds s) {stage : Stage} (idle : ∀ start work, stage ≠ .Doing start work)
    (past : List (Entry × Process)) : Told steady others holds { s with stage, past } :=
  ⟨fun _ _ doing => absurd doing (idle _ _),told.rows⟩

theorem Told.doing (told : Told steady others holds s) {start : Starting.State} {work : Work}
    (knows : ∀ entry ∈ s.wanted.head?, work.Told steady (others s.rows.length) (holds entry)) :
    Told steady others holds { s with stage := .Doing start work } := by
  refine ⟨?_,told.rows⟩
  rintro _ _ ⟨⟩
  exact knows

theorem Told.done (told : Told steady others holds s) {entry : Entry} {start : Starting.State} {row : Except Failure Measurement}
    (rest : List Entry)
    (knows : ∀ measurement, row = .ok measurement → (Work.Asking measurement.measuredMib).Told steady 0 (holds entry)) :
    Told steady others holds (s.done entry rest start row) := by
  refine ⟨fun _ _ doing => (by cases doing),fun other member measurement is => ?_⟩
  rcases List.mem_append.mp member with earlier | own
  · exact told.rows other earlier measurement is
  · cases List.mem_singleton.mp own
    exact knows measurement is

theorem Told.loads (told : Told steady others holds s) {entry : Entry} {start : Starting.State} {before : Option ℕ}
    (stage : s.stage = .Doing start (.Loading before)) (rest : List Entry) (after : Starting.State) :
    Told steady others holds (s.loads entry rest before after) := by
  have knows := told.work start _ stage
  rw [State.loads]
  split
  · exact told.done rest nofun
  · exact told.doing knows
  · exact told.doing knows

/-- Where the process is told of, that is what it holds; where it is not, what
    was read before is still to be compared. -/
theorem Told.compares (told : Told steady others holds s) {start : Starting.State} {before device : Option ℕ}
    (stage : s.stage = .Doing start (.Measuring before))
    (truthful : ∀ mib, device = some mib → ∀ entry ∈ s.wanted.head?, mib = holds entry) :
    Told steady others holds (s.compares start before device) := by
  have knows := told.work start _ stage
  cases device with
  | some mib =>
    refine told.doing fun entry inHand => ?_
    have exact_figure := truthful mib rfl entry inHand
    constructor
    · intro figure is
      rw [← exact_figure]
      exact (u32_eq_some.mp is).2.symm
    · intro _ _ fits
      exact u32_eq_some.mpr ⟨exact_figure ▸ fits,exact_figure⟩
  | none =>
    cases before with
    | some before => exact told.doing fun entry inHand => (knows entry inHand).1 before rfl
    | none =>
      refine told.doing fun entry inHand => ⟨nofun,fun calm => ?_⟩
      cases (knows entry inHand).2 calm

/-- With nobody else's use changing, the use grows by what the process holds. -/
theorem Told.grows (told : Told steady others holds s) (orderly : Orderly machine server root all s)
    {start : Starting.State} {before : ℕ} {device : Option DeviceMemory} (stage : s.stage = .Doing start (.Comparing before))
    (truthful : Truthful others holds s (.Device (some device))) (calm : steady → Steady s (.Device (some device))) :
    Told steady others holds
      { s with stage := .Doing start (.Asking ((device.bind fun device => grown before device.usedMib).bind u32)) } := by
  refine told.doing fun entry inHand => ?_
  have read : before = others s.rows.length := told.work start _ stage entry inHand
  obtain ⟨_,rest,wanted,_⟩ := orderly.doing start _ stage
  rw [wanted] at inHand
  cases inHand
  constructor
  · intro mib is
    obtain ⟨figure,more,fits⟩ := Option.bind_eq_some_iff.mp is
    obtain ⟨figures,rfl,grew⟩ := Option.bind_eq_some_iff.mp more
    obtain ⟨positive,used⟩ := grown_eq_some.mp grew
    obtain ⟨_,rfl⟩ := u32_eq_some.mp fits
    rw [truthful.card figures rfl,← read,Nat.add_left_cancel_iff] at used
    rw [← used] at positive ⊢
    exact orderly.held_of_pos wanted stage positive
  · intro still positive fits
    obtain ⟨figures,is⟩ := (calm still).card _ rfl
    cases is
    obtain ⟨process,inHand,running⟩ := (calm still).runs _ rfl start _ stage
    have held := orderly.held_eq holds
    rw [Option.mem_def.mp inHand,Option.elim_some,if_pos running] at held
    rw [child_doing wanted stage] at inHand
    obtain ⟨inner,_,rfl⟩ := Option.map_eq_some_iff.mp (Option.mem_def.mp inHand)
    have used := truthful.card figures rfl
    rw [held,← read] at used
    rw [Option.bind_some,grown_eq_some.mpr ⟨positive,used⟩,Option.bind_some]
    exact u32_eq_some.mpr ⟨fits,rfl⟩

theorem Told.did {event : Event} (told : Told steady others holds s) (orderly : Orderly machine server root all s)
    (truthful : Truthful others holds s event) (calm : steady → Steady s event) (came : Did machine server root s event s') :
    Told steady others holds s' := by
  cases came with
  | @reads entry rest device wanted stage =>
    have held : s.held holds = 0 := by
      rw [orderly.held_eq,child_idle fun _ _ doing => by rw [stage] at doing; cases doing]
      rfl
    refine told.doing fun _ _ => ⟨fun figure is => ?_,fun still => ?_⟩
    · obtain ⟨figures,rfl,rfl⟩ := Option.map_eq_some_iff.mp is
      rw [truthful.card figures rfl,held,Nat.add_zero]
    · obtain ⟨figures,is⟩ := (calm still).card _ rfl
      cases is
      rfl
  | unread stage => exact told.idle (fun _ _ doing => by cases doing) _
  | looks wanted stage steps => exact told.loads stage _ _
  | @compares start before measurement stage => exact told.compares stage fun mib is => truthful.process measurement mib rfl is
  | grows stage => exact told.grows orderly stage truthful calm
  | panics wanted stage => exact told.idle (fun _ _ doing => by cases doing) _
  | @asked entry rest start measuredMib wanted stage =>
    refine told.done rest ?_
    rintro _ ⟨⟩
    exact told.work start _ stage entry (by rw [wanted]; rfl)
  | outside wanted stage steps => exact told.doing (told.work _ _ stage)

end

/-- While the card and the tools tell the truth and what others hold stays the
    same from the first look at an entry to the last, each figure is what the
    entry's own process holds: by itself, or as what the use has grown by since
    before its start. Where the card could be asked each time and the child was
    still running, no such figure is missing. -/
theorem measured_truly {allowed : State → Event → Prop} {others : ℕ → ℕ} {holds : Entry → ℕ}
    (truthful : ∀ s event, allowed s event → Truthful others holds s event)
    (reached : Reaches (command machine server root all) allowed s) {entry : Entry} {measurement : Measurement}
    (row : (entry,.ok measurement) ∈ s.rows) :
    (∀ mib, measurement.measuredMib = some mib → mib = holds entry) ∧
    ((∀ s event, allowed s event → Steady s event) → 0 < holds entry → holds entry < 2 ^ 32 →
      measurement.measuredMib = some (holds entry)) := by
  have told : Told (∀ s event, allowed s event → Steady s event) others holds s := by
    refine reached.invariant ⟨fun _ _ doing => (by cases doing),fun _ member => absurd member List.not_mem_nil⟩
      fun before event after reaches told may steps => ?_
    exact told.did (orderly_of_reaches reaches) (truthful before event may) (fun calm => calm before event may) (did steps)
  exact told.rows _ row measurement rfl

end

/-- Others hold 1000, the process of the entry as much as it claims, and the card
    says no more than that. -/
def calm (s : State) : Event → Bool
  | .Device (some (some device)) =>
    decide (device.usedMib = 1000 + s.held Entry.memoryEstimateMib) && match s.stage with
      | .Doing _ _ => s.child.any fun process => decide (process.2.life = .Running)
      | _ => true
  | .Device _ => false
  | .Measured (some measurement) => measurement.deviceMib.isNone
  | _ => true

theorem calm_truthful {s : State} {event : Event} (quiet : calm s event = true) :
    Truthful (fun _ => 1000) Entry.memoryEstimateMib s event where
  card := by
    rintro device rfl
    exact of_decide_eq_true (Bool.and_eq_true_iff.mp quiet).1
  process := by
    rintro measurement mib rfl is
    rw [calm,is] at quiet
    cases quiet

theorem calm_steady {s : State} {event : Event} (quiet : calm s event = true) : Steady s event where
  card := by
    rintro device rfl
    rcases device with _ | _ | figures
    · cases quiet
    · cases quiet
    · exact ⟨figures,rfl⟩
  runs := by
    rintro device rfl start work doing
    rcases device with _ | _ | figures
    · cases quiet
    · cases quiet
    · have runs := (Bool.and_eq_true_iff.mp quiet).2
      rw [doing] at runs
      obtain ⟨process,inHand,running⟩ := (Option.any_eq_true _ _).mp runs
      exact ⟨process,inHand,of_decide_eq_true running⟩

/-- The process is told of nowhere, and the use has grown by what it holds. -/
def compared : List Event :=
  startedTwice ++ [.Measured (some ⟨some 700,none⟩),.Device (some (some ⟨24576,5000⟩)),.Asked]

/-- What one row says, if it is one of a measurement. -/
def State.measured (self : State) : Option (Entry × Measurement) :=
  self.rows.head?.bind fun (entry,row) => row.toOption.map (entry,·)

theorem mem_rows_of_measured {s : State} {entry : Entry} {measurement : Measurement} (is : s.measured = some (entry,measurement)) :
    (entry,.ok measurement) ∈ s.rows := by
  obtain ⟨⟨entry',row⟩,first,came⟩ := Option.bind_eq_some_iff.mp is
  obtain ⟨measurement',said,same⟩ := Option.map_eq_some_iff.mp came
  cases same
  cases row <;> cases said
  exact List.mem_of_mem_head? first

theorem growth_measured : ∃ (s : State) (measurement : Measurement), (benched,.ok measurement) ∈ s.rows ∧
    measurement.measuredMib = some 4000 := by
  have ends : (benching.run calm benching.initial compared).any (fun s => decide (s.measured.map Prod.fst = some benched)) = true := by
    decide +kernel
  obtain ⟨s,reached,passes⟩ : ∃ s, Reaches benching (fun s event => calm s event = true) s ∧ _ :=
    Transition.exists_of_run (fun _ _ quiet => quiet) ends
  obtain ⟨⟨entry,measurement⟩,measured,rfl⟩ := Option.map_eq_some_iff.mp (of_decide_eq_true passes)
  have row := mem_rows_of_measured measured
  refine ⟨s,measurement,row,?_⟩
  exact (measured_truly (fun _ _ quiet => calm_truthful quiet) reached row).2 (fun _ _ quiet => calm_steady quiet)
    (by decide) (by decide)

end Maestro.Bench
