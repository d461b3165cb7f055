import Maestro.Threads

/-!
# What one step of a thread can be

One constructor for each branch a step can take, with what the branch found and
what it leaves. A fact about a step is proved by cases on the branch it took.
-/
namespace Maestro.Threads
open Slots (Loaded Slot Table Liveness)
open Admission (Decision)

section
variable {Tid : Type} (config : Config) (s : Shared Tid) (t : Tid)

/-- A branch of an admission. -/
inductive PhaseBranch (request : Request) : Input → Phase → Shared Tid → Job → Prop
  | finds (input : Input) (child : Child) (shared : Shared Tid) (ran : s.running request.entry.id = (some child,shared)) :
    PhaseBranch request input .Rechecking shared (.Admitting request (.Placed child))
  | misses (input : Input) (shared : Shared Tid) (ran : s.running request.entry.id = (none,shared)) :
    PhaseBranch request input .Rechecking shared (.Admitting request .Resolving)
  | resolves : PhaseBranch request (.Resolve none) .Resolving s (.Admitting request .Asking)
  | unresolved (failure : Failure) :
    PhaseBranch request (.Resolve (some failure)) .Resolving s.unlock (.Failed request failure)
  | reads (reading : Option DeviceMemory) : PhaseBranch request (.Device reading) .Asking s
    (.Admitting request (.Weighing (reading.map DeviceMemory.freeMib) config.catalog.entries []))
  | weighs (input : Input) (free : Option ℕ) (entry : Entry) (rest : List Entry) (seen : List Admission.Loaded) :
    PhaseBranch request input (.Weighing free (entry :: rest) seen) s
      (.Admitting request (.Weighing free rest (seen ++ s.seen entry)))
  | panics (input : Input) (free : Option ℕ) (seen : List Admission.Loaded)
      (panicked : config.budget.admit seen (.of request.entry) free = none) :
    PhaseBranch request input (.Weighing free [] seen) s.unlock .Idle
  | chooses (input : Input) (free : Option ℕ) (seen : List Admission.Loaded) (ids : List String)
      (decided : config.budget.admit seen (.of request.entry) free = some (.Unload ids)) :
    PhaseBranch request input (.Weighing free [] seen) s (.Admitting request (.Unloading ids ids))
  | decides (input : Input) (free : Option ℕ) (seen : List Admission.Loaded) (decision : Decision)
      (decided : config.budget.admit seen (.of request.entry) free = some decision) (keeps : ∀ ids, decision ≠ .Unload ids) :
    PhaseBranch request input (.Weighing free [] seen) s (.Admitting request (.Turning decision none))
  | takes (input : Input) (named rest : List String) (id : String) (held : Loaded Child) (there : s.slots id = some held)
      (idle : s.strong held.child ≤ 1) :
    PhaseBranch request input (.Unloading named (id :: rest)) (s.put id none)
      (.Admitting request (.Ending held.child named rest))
  | blocked (input : Input) (named rest : List String) (id : String) (held : Loaded Child) (there : s.slots id = some held)
      (read : 1 < s.strong held.child) :
    PhaseBranch request input (.Unloading named (id :: rest)) s (.Admitting request (.Turning (.Unload named) (some id)))
  | skips (input : Input) (named rest : List String) (id : String) (empty : s.slots id = none) :
    PhaseBranch request input (.Unloading named (id :: rest)) s (.Admitting request (.Unloading named rest))
  | unloaded (input : Input) (named : List String) :
    PhaseBranch request input (.Unloading named []) s (.Admitting request (.Turning (.Unload named) none))
  | ends (input : Input) (child : Child) (named rest : List String) :
    PhaseBranch request input (.Ending child named rest) (s.release child) (.Admitting request (.Unloading named rest))
  | room (decision : Decision) (blocker : Option String) (expired : Bool)
      (turned : MakeRoom.turn request.entry.id decision blocker config.wait expired = .Room) :
    PhaseBranch request (.Clock expired) (.Turning decision blocker) s (.Admitting request (.Starting false))
  | fails (decision : Decision) (blocker : Option String) (expired : Bool) (failure : Failure)
      (turned : MakeRoom.turn request.entry.id decision blocker config.wait expired = .Fails failure) :
    PhaseBranch request (.Clock expired) (.Turning decision blocker) s.unlock (.Failed request failure)
  | sleeps (decision : Decision) (blocker : Option String) (expired : Bool)
      (turned : MakeRoom.turn request.entry.id decision blocker config.wait expired = .Sleeps) :
    PhaseBranch request (.Clock expired) (.Turning decision blocker) s (.Admitting request .Asking)
  | spawns (second : Bool) : PhaseBranch request (.Spawn none) (.Starting second) (s.spawn request.entry.id)
    (.Admitting request (.Loading (s.fresh request.entry.id) false second))
  | unspawned (second : Bool) (failure : Failure) :
    PhaseBranch request (.Spawn (some failure)) (.Starting second) s.unlock (.Failed request failure)
  | exits (child : Child) (everConnected second : Bool) (health : Option ℕ) (expired : Bool) (status : String)
      (gone : s.check child = .Exited status) :
    PhaseBranch request (.Poll health expired) (.Loading child everConnected second) s
      (.Admitting request (.Abandoning child
        (.Unavailable s!"entry '{child.id}': the server exited while loading ({status})") (!everConnected && !second)))
  | ready (child : Child) (everConnected second expired : Bool) (alive : s.check child = .Running) :
    PhaseBranch request (.Poll (some 200) expired) (.Loading child everConnected second) s
      (.Admitting request (.Measuring child))
  | late (child : Child) (everConnected second : Bool) (health : Option ℕ) (alive : s.check child = .Running)
      (unready : health ≠ some 200) :
    PhaseBranch request (.Poll health true) (.Loading child everConnected second) s (.Admitting request (.Abandoning child
      (.NotReady (s!"entry '{child.id}': not ready within its startup budget of " ++
        s!"{request.entry.startupTimeoutSeconds} seconds")) false))
  | polls (child : Child) (everConnected second : Bool) (health : Option ℕ) (alive : s.check child = .Running)
      (unready : health ≠ some 200) :
    PhaseBranch request (.Poll health false) (.Loading child everConnected second) s
      (.Admitting request (.Loading child (everConnected || health.isSome) second))
  | retries (input : Input) (child : Child) (failure : Failure) :
    PhaseBranch request input (.Abandoning child failure true) (s.release child) (.Admitting request (.Starting true))
  | abandons (input : Input) (child : Child) (failure : Failure) :
    PhaseBranch request input (.Abandoning child failure false) (s.release child).unlock (.Failed request failure)
  | measures (child : Child) (measured : Measurement) :
    PhaseBranch request (.Measure measured) (.Measuring child) s (.Admitting request (.Placing ⟨child,s.clock,measured⟩))
  | places (input : Input) (loaded : Loaded Child) :
    PhaseBranch request input (.Placing loaded) (s.place request.entry.id loaded) (.Admitting request (.Placed loaded.child))
  | serves (input : Input) (child : Child) :
    PhaseBranch request input (.Placed child) s.unlock (.Serving request child)

/-- A branch of a thread's step. -/
inductive Branch : Input → Job → Shared Tid → Job → Prop
  | asks (request : Request) (known : request.entry ∈ config.catalog.entries) :
    Branch (.Ask request) .Idle s (.Running request)
  | reaps (on : config.idleWindow.duration.isSome) (unsignalled : s.signalled = false) :
    Branch .Reap .Idle s (.Sweeping .Exited config.ids [])
  | stops (order : List String) (every : order.Perm config.ids) : Branch (.Stop order) .Idle s (.Clearing s.next order [])
  | lists : Branch .List .Idle s (.Listing config.catalog.entries [])
  | finds (input : Input) (request : Request) (child : Child) (shared : Shared Tid)
      (ran : s.running request.entry.id = (some child,shared)) :
    Branch input (.Running request) shared (.Serving request child)
  | misses (input : Input) (request : Request) (shared : Shared Tid) (ran : s.running request.entry.id = (none,shared)) :
    Branch input (.Running request) shared (.Queued request)
  | locks (input : Input) (request : Request) (free : s.admission = none) :
    Branch input (.Queued request) { s with admission := some t } (.Admitting request .Rechecking)
  | admits (input : Input) (request : Request) (phase : Phase) (s' : Shared Tid) (job' : Job)
      (branch : PhaseBranch config s request input phase s' job') :
    Branch input (.Admitting request phase) s' job'
  | gives (input : Input) (request : Request) (failure : Failure) : Branch input (.Failed request failure) s .Idle
  | relays (request : Request) (child : Child) (relays : request.relays = true) :
    Branch .Go (.Serving request child) s (.Touching request child)
  | keeps (request : Request) (child : Child) (relays : request.relays = false) :
    Branch .Go (.Serving request child) s (.Dropping request child)
  | hangs (request : Request) (child : Child) : Branch .Hangup (.Serving request child) s (.Dropping request child)
  | touches (input : Input) (request : Request) (child : Child) : Branch input (.Touching request child)
    (s.put request.entry.id (Slots.touched s.clock (s.slots request.entry.id))) (.Dropping request child)
  | drops (input : Input) (request : Request) (child : Child) : Branch input (.Dropping request child) (s.release child) .Idle
  | buries (input : Input) (id : String) (rest : List String) (named : List (String × Option String)) (held : Loaded Child)
      (status : String) (there : s.slots id = some held) (alone : s.strong held.child = 1)
      (gone : s.check held.child = .Exited status) :
    Branch input (.Sweeping .Exited (id :: rest) named)
      { s.put id none with life := Function.update s.life held.child (s.life held.child).stopped }
      (.Swept .Exited held.child (id,some status) rest named)
  | unloads (input : Input) (now : ℕ) (id : String) (rest : List String) (named : List (String × Option String))
      (held : Loaded Child) (duration : ℕ) (there : s.slots id = some held) (idle : s.strong held.child ≤ 1)
      (window : config.idleWindow.duration = some duration) (old : stale now held.lastUsed duration = true) :
    Branch input (.Sweeping (.Idle now) (id :: rest) named) (s.put id none)
      (.Swept (.Idle now) held.child (id,none) rest named)
  | passes (input : Input) (kind : Sweep) (id : String) (rest : List String) (named : List (String × Option String)) :
    Branch input (.Sweeping kind (id :: rest) named) s (.Sweeping kind rest named)
  | swept (input : Input) (named : List (String × Option String)) :
    Branch input (.Sweeping .Exited [] named) s (.Expiring s.clock config.catalog.entries [])
  | reaped (input : Input) (now : ℕ) (named : List (String × Option String)) :
    Branch input (.Sweeping (.Idle now) [] named) s .Idle
  | names (input : Input) (kind : Sweep) (child : Child) (said : String × Option String) (rest : List String)
      (named : List (String × Option String)) :
    Branch input (.Swept kind child said rest named) (s.release child) (.Sweeping kind rest (named ++ [said]))
  | looks (input : Input) (now : ℕ) (entry : Entry) (rest : List Entry) (seen : List Admission.Loaded) :
    Branch input (.Expiring now (entry :: rest) seen) s (.Expiring now rest (seen ++ s.seen entry))
  | expires (input : Input) (now : ℕ) (seen : List Admission.Loaded) : Branch input (.Expiring now [] seen) s
    (.Sweeping (.Idle now) (expired config.idleWindow.duration seen now) [])
  | clears (input : Input) (called : ℕ) (id : String) (rest : List String) (taken : List Child) :
    Branch input (.Clearing called (id :: rest) taken)
      { s.put id none with cleared := Function.update s.cleared id (max (s.cleared id) called) }
      (.Clearing called rest (taken ++ ((s.slots id).map Loaded.child).toList))
  | cleared (input : Input) (called : ℕ) (taken : List Child) :
    Branch input (.Clearing called [] taken) s (.Stopping called taken)
  | ends (input : Input) (called : ℕ) (child : Child) (rest : List Child) :
    Branch input (.Stopping called (child :: rest)) (s.release child) (.Stopping called rest)
  | signals (input : Input) (called : ℕ) :
    Branch input (.Stopping called []) { s with signalled := true } (.Signalled called)
  | returns (input : Input) (called : ℕ) :
    Branch input (.Signalled called) { s with returned := max s.returned called } .Idle
  | reads (input : Input) (entry : Entry) (rest : List Entry) (loaded : List String) : Branch input (.Listing (entry :: rest) loaded) s
    (.Listing rest (loaded ++ ((s.slots entry.id).map fun _ => entry.id).toList))
  | listed (loaded : List String) : Branch .Go (.Listing [] loaded) s .Idle
  | catalogues (loaded : List String) :
    Branch .Catalogue (.Listing [] loaded) s (.Holding loaded config.catalog.entries [])
  | holds (input : Input) (loaded : List String) (entry : Entry) (rest : List Entry) (held : List (String × Option ℕ)) :
    Branch input (.Holding loaded (entry :: rest) held) s (.Holding loaded rest
      (held ++ ((s.slots entry.id).map fun held => (entry.id,held.measured.largestMib)).toList))
  | held (input : Input) (loaded : List String) (held : List (String × Option ℕ)) : Branch input (.Holding loaded [] held) s .Idle

variable {config s t} {input : Input} {s' : Shared Tid} {job job' : Job}

theorem phase_branch {request : Request} {phase : Phase} (steps : phase.step config input s request = some (s',job')) :
    PhaseBranch config s request input phase s' job' := by
  cases phase with
  | Rechecking =>
    rw [Phase.step] at steps
    rcases ran : s.running request.entry.id with ⟨_ | child,shared⟩ <;> rw [ran] at steps <;> cases steps
    · exact .misses _ _ ran
    · exact .finds _ _ _ ran
  | Resolving =>
    cases input with
    | Resolve missing =>
      cases missing <;> cases steps
      · exact .resolves
      · exact .unresolved _
    | _ => cases steps
  | Asking =>
    cases input with
    | Device reading =>
      cases steps
      exact .reads reading
    | _ => cases steps
  | Weighing free rest seen =>
    cases rest with
    | cons entry rest =>
      cases steps
      exact .weighs ..
    | nil =>
      rw [Phase.step] at steps
      split at steps <;> cases steps
      · exact .panics _ _ _ ‹_›
      · exact .chooses _ _ _ _ ‹_›
      · rename_i decision keeps decided
        exact .decides _ _ _ _ decided keeps
  | Unloading named rest =>
    cases rest with
    | nil =>
      cases steps
      exact .unloaded ..
    | cons id rest =>
      rw [Phase.step] at steps
      rcases Slots.takeIfIdle_cases s.strong (fun _ => true) (s.slots id) with
        ⟨empty,is⟩ | ⟨held,there,stays,is⟩ | ⟨held,there,idle,_,is⟩ <;> rw [is] at steps <;> cases steps
      · exact .skips _ _ _ _ empty
      · exact .blocked _ _ _ _ held there (stays.resolve_right Bool.noConfusion)
      · exact .takes _ _ _ _ held there idle
  | Ending child named rest =>
    cases steps
    exact .ends ..
  | Turning decision blocker =>
    cases input with
    | Clock isExpired =>
      simp only [Phase.step] at steps
      split at steps <;> cases steps
      · exact .room _ _ _ ‹_›
      · exact .fails _ _ _ _ ‹_›
      · exact .sleeps _ _ _ ‹_›
    | _ => cases steps
  | Starting second =>
    cases input with
    | Spawn failure =>
      cases failure <;> cases steps
      · exact .spawns second
      · exact .unspawned second _
    | _ => cases steps
  | Loading child everConnected second =>
    cases input with
    | Poll health isExpired =>
      simp only [Phase.step] at steps
      split at steps
      · cases steps
        exact .exits _ _ _ _ _ _ ‹_›
      · rename_i alive
        split_ifs at steps with healthy late <;> cases steps
        · subst healthy
          exact .ready _ _ _ _ alive
        · subst late
          exact .late _ _ _ _ alive healthy
        · rw [Bool.not_eq_true] at late
          subst late
          exact .polls _ _ _ _ alive healthy
    | _ => cases steps
  | Abandoning child failure again =>
    cases again <;> cases steps
    · exact .abandons ..
    · exact .retries ..
  | Measuring child =>
    cases input with
    | Measure measured =>
      cases steps
      exact .measures ..
    | _ => cases steps
  | Placing loaded =>
    cases steps
    exact .places ..
  | Placed child =>
    cases steps
    exact .serves ..

theorem sweep_branch {kind : Sweep} {named : List (String × Option String)} {rest : List String}
    (steps : sweep config s kind named rest = some (s',job')) : Branch config s t input (.Sweeping kind rest named) s' job' := by
  cases rest with
  | nil =>
    cases kind <;> cases steps
    · exact .swept ..
    · exact .reaped ..
  | cons id rest =>
    rw [sweep] at steps
    cases kind with
    | Exited =>
      rw [Sweep.take] at steps
      rcases Slots.takeIfExited_cases s.strong s.check (s.slots id) with is | ⟨held,status,there,alone,gone,is⟩
      · simp only [is,Option.map_none] at steps
        cases steps
        exact .passes ..
      · simp only [is,Option.map_some] at steps
        cases steps
        exact .buries _ _ _ _ held status there alone gone
    | Idle now =>
      rw [Sweep.take] at steps
      rcases Slots.takeIfIdle_cases s.strong
        (fun held : Loaded Child => config.idleWindow.duration.any fun duration => stale now held.lastUsed duration)
        (s.slots id) with ⟨_,is⟩ | ⟨held,there,_,is⟩ | ⟨held,there,idle,old,is⟩ <;> simp only [is] at steps <;> cases steps
      · exact .passes ..
      · exact .passes ..
      · obtain ⟨duration,window,old⟩ := (Option.any_eq_true ..).mp old
        exact .unloads _ _ _ _ _ held duration there idle window old

/-- Every step takes one of the branches. -/
theorem step_branch (steps : job.step config input s t = some (s',job')) : Branch config s t input job s' job' := by
  cases job with
  | Idle =>
    cases input with
    | Ask request =>
      simp only [Job.step,begin] at steps
      split_ifs at steps with known
      cases steps
      exact .asks _ known
    | Reap =>
      simp only [Job.step,begin] at steps
      split_ifs at steps with may
      cases steps
      exact .reaps may.1 may.2
    | Stop order =>
      simp only [Job.step,begin] at steps
      split_ifs at steps with every
      cases steps
      exact .stops _ every
    | List =>
      cases steps
      exact .lists
    | _ => cases steps
  | Running request =>
    rw [Job.step] at steps
    rcases ran : s.running request.entry.id with ⟨_ | child,shared⟩ <;> rw [ran] at steps <;> cases steps
    · exact .misses _ _ _ ran
    · exact .finds _ _ _ _ ran
  | Queued request =>
    rw [Job.step] at steps
    split_ifs at steps with free
    cases steps
    exact .locks _ _ (Option.isNone_iff_eq_none.mp free)
  | Admitting request phase => exact .admits _ _ _ _ _ (phase_branch steps)
  | Failed request failure =>
    cases steps
    exact .gives ..
  | Serving request child =>
    cases input with
    | Go =>
      rw [Job.step] at steps
      cases relays : request.relays <;> rw [relays] at steps <;> cases steps
      · exact .keeps _ _ relays
      · exact .relays _ _ relays
    | Hangup =>
      cases steps
      exact .hangs ..
    | _ => cases steps
  | Touching request child =>
    cases steps
    exact .touches ..
  | Dropping request child =>
    cases steps
    exact .drops ..
  | Sweeping kind rest named => exact sweep_branch steps
  | Swept kind child said rest named =>
    cases steps
    exact .names ..
  | Expiring now rest seen =>
    cases rest <;> cases steps
    · exact .expires ..
    · exact .looks ..
  | Clearing called rest taken =>
    cases rest <;> cases steps
    · exact .cleared ..
    · exact .clears ..
  | Stopping called rest =>
    cases rest <;> cases steps
    · exact .signals ..
    · exact .ends ..
  | Signalled called =>
    cases steps
    exact .returns ..
  | Listing rest loaded =>
    cases rest with
    | cons entry rest =>
      cases steps
      exact .reads ..
    | nil =>
      cases input <;> cases steps
      · exact .listed _
      · exact .catalogues _
  | Holding loaded rest held =>
    cases rest <;> cases steps
    · exact .held ..
    · exact .holds ..

end
end Maestro.Threads
