import Maestro.AdmissionExact
import Maestro.MakeRoom

/-!
# What waiting for the readers would change

The same call with every reader finished: nothing is busy and nothing else has
changed. A refusal that offers a wait is compared with what that call decides.
-/
namespace Maestro.Admission
open Maestro.Selection Maestro.MakeRoom

/-- An entry whose readers have finished. -/
def Loaded.idle (entry : Loaded) : Loaded := { entry with busy := false }

/-- The list with every reader finished. -/
def cleared (loaded : List Loaded) : List Loaded := loaded.map Loaded.idle

/-- On-demand and not the entry being asked for: what can go once idle. -/
def yielding (loaded : List Loaded) (wanted : Wanted) : List Loaded :=
  loaded.filter fun entry => entry.residency = .OnDemand && entry.id ≠ wanted.id

section Cleared
variable {budget : Budget} {loaded : List Loaded} {wanted : Wanted} {free : Option ℕ}

theorem cleared_cost : (cleared loaded).map Loaded.costMib = loaded.map Loaded.costMib := by
  simp [cleared,Loaded.idle,Function.comp_def]

theorem isLoaded_cleared : IsLoaded (cleared loaded) wanted ↔ IsLoaded loaded wanted := by
  simp [IsLoaded,cleared,Loaded.idle]

theorem reserved_cleared : reservedMib (cleared loaded) = reservedMib loaded := by
  simp only [reservedMib,residents,cleared]
  rw [List.filter_map,List.map_map]
  rfl

theorem roomAfter_cleared {unloaded : List Loaded} :
    RoomAfter budget (cleared loaded) wanted free unloaded ↔ RoomAfter budget loaded wanted free unloaded := by
  rw [RoomAfter,cleared_cost,RoomAfter]

/-- What is unloaded gives back the same whether or not it was busy. -/
theorem roomAfter_idle {unloaded : List Loaded} : RoomAfter budget loaded wanted free (unloaded.map Loaded.idle) ↔
    RoomAfter budget loaded wanted free unloaded := by
  have cost : (unloaded.map Loaded.idle).map Loaded.costMib = unloaded.map Loaded.costMib := by
    simp [Loaded.idle,Function.comp_def]
  have device : (unloaded.map Loaded.idle).map Loaded.deviceMib = unloaded.map Loaded.deviceMib := by
    simp [Loaded.idle,Function.comp_def]
  rw [RoomAfter,cost,device,RoomAfter]

theorem isCandidate_idle (entry : Loaded) :
    isCandidate wanted entry.idle = (entry.residency = .OnDemand && entry.id ≠ wanted.id : Bool) := by
  change (decide (entry.residency = .OnDemand) && true && decide (entry.id ≠ wanted.id)) = _
  rw [Bool.and_true]

/-- Once its readers are gone, everything that can yield is a candidate. -/
theorem candidates_cleared_perm : (candidates (cleared loaded) wanted).Perm ((yielding loaded wanted).map Loaded.idle) := by
  refine candidates_perm.trans (List.Perm.of_eq ?_)
  rw [cleared,List.filter_map,yielding]
  congr 2
  funext entry
  exact isCandidate_idle entry

/-- Where no on-demand entry is busy, clearing changes no candidate. -/
theorem candidates_cleared (quiet : freesItself loaded wanted = false) :
    candidates (cleared loaded) wanted = candidates loaded wanted := by
  have same : (cleared loaded).filter (isCandidate wanted) = loaded.filter (isCandidate wanted) := by
    induction loaded with
    | nil => rfl
    | cons entry rest ih =>
      simp only [freesItself,List.any_cons,Bool.or_eq_false_iff] at quiet
      have later := ih quiet.2
      have here := quiet.1
      simp only [cleared,List.map_cons,List.filter_cons] at later ⊢
      rw [later]
      cases busy : entry.busy with
      | false =>
        have : entry.idle = entry := by rw [Loaded.idle,← busy]
        rw [this]
      | true =>
        have stays : isCandidate wanted entry.idle = false := by
          rw [isCandidate_idle,← here,busy,Bool.and_true]
        have held : isCandidate wanted entry = false := by simp [isCandidate,busy]
        rw [stays,held]
        rfl
  rw [candidates,same,candidates]

theorem candidates_subperm_cleared : ((candidates loaded wanted).map Loaded.idle).Subperm (candidates (cleared loaded) wanted) := by
  refine List.Subperm.trans ?_ candidates_cleared_perm.symm.subperm
  refine ((candidates_perm.map Loaded.idle).subperm).trans ?_
  refine List.Sublist.subperm (List.Sublist.map Loaded.idle ?_)
  refine List.monotone_filter_right loaded (fun entry candidate => ?_)
  simp only [isCandidate,Bool.and_eq_true] at candidate
  simp [candidate.1.1,candidate.2]

/-- Some choice of candidates makes room once nothing is busy exactly when
    everything that can yield does. -/
theorem cleared_enough_iff :
    RoomAfter budget (cleared loaded) wanted free (taken budget (cleared loaded) wanted free) ↔
      RoomAfter budget loaded wanted free (yielding loaded wanted) := by
  rw [taken_enough_iff]
  constructor
  · rintro ⟨chosen,part,room⟩
    have all := room.mono (part.trans candidates_cleared_perm.subperm)
    rwa [roomAfter_cleared,roomAfter_idle] at all
  · intro room
    refine ⟨_,candidates_cleared_perm.symm.subperm,?_⟩
    rwa [roomAfter_cleared,roomAfter_idle]

theorem calculable_of_room (room : RoomAfter budget loaded wanted free []) : Calculable budget loaded wanted free ↔
    (loaded.map Loaded.costMib).sum < 2 ^ 64 ∧
    (∀ limit, budget.limitMib = some limit → (loaded.map Loaded.costMib).sum + wanted.costMib < 2 ^ 64) ∧
    (∀ limit, budget.limitMib = some limit → reservedMib loaded ≤ limit) ∧ ∀ f, free = some f → f < 2 ^ 64 := by
  constructor
  · rintro ⟨held,ledger,reserved,device⟩
    have first := device 0 (Nat.zero_le _) (by simp)
    exact ⟨held,ledger,reserved,by simpa using first⟩
  · rintro ⟨held,ledger,reserved,device⟩
    refine ⟨held,ledger,reserved,fun k _ least => ?_⟩
    have zero : k = 0 := by
      by_contra above
      exact least 0 (Nat.pos_of_ne_zero above) room
    subst zero
    simpa using device

/-- Where there is room already, nothing the call computes depends on who is
    busy. -/
theorem calculable_cleared_of_room (room : RoomAfter budget loaded wanted free []) :
    Calculable budget (cleared loaded) wanted free ↔ Calculable budget loaded wanted free := by
  rw [calculable_of_room room,calculable_of_room (roomAfter_cleared.mpr room),cleared_cost,reserved_cleared]

theorem calculable_cleared_of_quiet (quiet : freesItself loaded wanted = false) :
    Calculable budget (cleared loaded) wanted free ↔ Calculable budget loaded wanted free := by
  constructor
  · rintro ⟨held,ledger,reserved,device⟩
    simp only [cleared_cost,reserved_cleared,candidates_cleared quiet,roomAfter_cleared] at held ledger reserved device
    exact ⟨held,ledger,reserved,device⟩
  · rintro ⟨held,ledger,reserved,device⟩
    refine ⟨?_,?_,?_,?_⟩ <;> simpa only [cleared_cost,reserved_cleared,candidates_cleared quiet,roomAfter_cleared]

/-- Room enough without any resident gone is room enough beside them all. -/
theorem beside_residents (room : RoomAfter budget loaded wanted free (yielding loaded wanted)) {limit : ℕ}
    (is : budget.limitMib = some limit) : wanted.costMib + reservedMib loaded ≤ limit := by
  have ledger := room.1 limit is
  have apart : ((yielding loaded wanted).map Loaded.costMib).sum + reservedMib loaded ≤
      (loaded.map Loaded.costMib).sum := by
    have whole := candidates_beside_residents (cleared loaded) wanted
    rw [(candidates_cleared_perm.map Loaded.costMib).sum_eq,reserved_cleared,cleared_cost] at whole
    simpa [Loaded.idle,Function.comp_def] using whole
  omega

end Cleared

/-! ## Waiting is offered exactly when it can help -/

section Waits
variable (budget : Budget) (loaded : List Loaded) (wanted : Wanted) (free : Option ℕ)

/-- The call goes through now, with or without unloading. -/
def Admitted : Prop := budget.admit loaded wanted free = some .Fits ∨
  ∃ ids, budget.admit loaded wanted free = some (.Unload ids)

/-- The call is turned down, for now or for good. -/
def TurnedDown : Prop := ∃ message, budget.admit loaded wanted free = some (.Blocked message) ∨
  budget.admit loaded wanted free = some (.Refuse message)

/-- A wait is offered exactly where the end of every reader would let the entry
    in by unloading, it is refused exactly where even that would not, and what
    is said and done about it agrees. -/
structure WaitsExactly : Prop where
  blocked : (∃ message, budget.admit loaded wanted free = some (.Blocked message)) ↔
    ¬ Admitted budget loaded wanted free ∧ ∃ ids, budget.admit (cleared loaded) wanted free = some (.Unload ids)
  refused : (∃ message, budget.admit loaded wanted free = some (.Refuse message)) ↔
    TurnedDown budget (cleared loaded) wanted free
  message : ∀ message, budget.admit loaded wanted free = some (.Blocked message) →
    ∀ limit reserved left, message ≠ neverLoads wanted limit reserved left loaded
  pass : ∀ decision, budget.admit loaded wanted free = some decision → ∀ waited expired,
    (turn wanted.id decision none waited expired).Waits →
      ∃ ids, budget.admit (cleared loaded) wanted free = some (.Unload ids)

variable {budget loaded wanted free}

/-- The last part follows from the first: a pass that no reader cut short waits
    only on a decision that offers it. -/
theorem waits_of_blocked
    (blocked : (∃ message, budget.admit loaded wanted free = some (.Blocked message)) →
      ∃ ids, budget.admit (cleared loaded) wanted free = some (.Unload ids))
    (decision : Decision) (is : budget.admit loaded wanted free = some decision) (waited : ℕ) (expired : Bool)
    (waits : (turn wanted.id decision none waited expired).Waits) :
    ∃ ids, budget.admit (cleared loaded) wanted free = some (.Unload ids) := by
  rcases (turn_waits_iff _ _ _ _ _).mp waits with ⟨message,rfl⟩ | ⟨_,absurdly⟩
  · exact blocked ⟨message,is⟩
  · exact absurd rfl absurdly

/-! ## What the call returns, by what makes room -/

theorem enough_iff : RoomAfter budget loaded wanted free (taken budget loaded wanted free) ↔
    RoomAfter budget loaded wanted free (candidates loaded wanted) := by
  rw [taken_enough_iff]
  constructor
  · rintro ⟨chosen,part,room⟩
    exact room.mono part
  · intro room
    exact ⟨_,List.Subperm.refl _,room⟩

section Weighed
variable (absent : ¬ IsLoaded loaded wanted) (possible : ¬ TooLarge budget wanted)
include absent possible

theorem admit_eq_none_iff : budget.admit loaded wanted free = none ↔ ¬ Calculable budget loaded wanted free := by
  rw [admit_weigh free absent possible,weigh_eq_none_iff]

/-- The four ways a call that can be calculated ends. -/
theorem admit_cases (fine : Calculable budget loaded wanted free) :
    (RoomAfter budget loaded wanted free [] ∧ budget.admit loaded wanted free = some .Fits) ∨
    (¬ RoomAfter budget loaded wanted free [] ∧ RoomAfter budget loaded wanted free (candidates loaded wanted) ∧
      ∃ ids, budget.admit loaded wanted free = some (.Unload ids)) ∨
    (¬ RoomAfter budget loaded wanted free (candidates loaded wanted) ∧ freesItself loaded wanted = true ∧
      ∃ message, budget.admit loaded wanted free = some (.Blocked message)) ∨
    (¬ RoomAfter budget loaded wanted free (candidates loaded wanted) ∧ freesItself loaded wanted = false ∧
      ∃ message, budget.admit loaded wanted free = some (.Refuse message)) := by
  rw [admit_weigh free absent possible]
  by_cases now : RoomAfter budget loaded wanted free []
  · exact .inl ⟨now,weigh_fits fine now⟩
  · by_cases enough : RoomAfter budget loaded wanted free (taken budget loaded wanted free)
    · exact .inr (.inl ⟨now,enough_iff.mp enough,_,weigh_unload fine now enough⟩)
    · obtain ⟨message,refused,_⟩ := weigh_refused fine enough
      rw [enough_iff] at enough
      cases frees : freesItself loaded wanted with
      | true => exact .inr (.inr (.inl ⟨enough,rfl,message,by simp [refused,frees]⟩))
      | false => exact .inr (.inr (.inr ⟨enough,rfl,message,by simp [refused,frees]⟩))

theorem blocked_iff : (∃ message, budget.admit loaded wanted free = some (.Blocked message)) ↔
    Calculable budget loaded wanted free ∧ ¬ RoomAfter budget loaded wanted free (candidates loaded wanted) ∧
      freesItself loaded wanted = true := by
  by_cases fine : Calculable budget loaded wanted free
  · have keeps : RoomAfter budget loaded wanted free [] → RoomAfter budget loaded wanted free (candidates loaded wanted) :=
      fun now => now.mono List.nil_subperm
    rcases admit_cases absent possible fine with ⟨now,is⟩ | ⟨_,enough,ids,is⟩ | ⟨short,frees,message,is⟩ | ⟨_,frees,_,is⟩
    · simp [is,keeps now]
    · simp [is,enough]
    · simp [is,fine,short,frees]
    · simp [is,frees]
  · simp [(admit_eq_none_iff absent possible).mpr fine,fine]

theorem refuse_iff : (∃ message, budget.admit loaded wanted free = some (.Refuse message)) ↔
    Calculable budget loaded wanted free ∧ ¬ RoomAfter budget loaded wanted free (candidates loaded wanted) ∧
      freesItself loaded wanted = false := by
  by_cases fine : Calculable budget loaded wanted free
  · have keeps : RoomAfter budget loaded wanted free [] → RoomAfter budget loaded wanted free (candidates loaded wanted) :=
      fun now => now.mono List.nil_subperm
    rcases admit_cases absent possible fine with ⟨now,is⟩ | ⟨_,enough,ids,is⟩ | ⟨_,frees,_,is⟩ | ⟨short,frees,message,is⟩
    · simp [is,keeps now]
    · simp [is,enough]
    · simp [is,frees]
    · simp [is,fine,short,frees]
  · simp [(admit_eq_none_iff absent possible).mpr fine,fine]

theorem unload_iff : (∃ ids, budget.admit loaded wanted free = some (.Unload ids)) ↔
    Calculable budget loaded wanted free ∧ ¬ RoomAfter budget loaded wanted free [] ∧
      RoomAfter budget loaded wanted free (candidates loaded wanted) := by
  by_cases fine : Calculable budget loaded wanted free
  · have keeps : RoomAfter budget loaded wanted free [] → RoomAfter budget loaded wanted free (candidates loaded wanted) :=
      fun now => now.mono List.nil_subperm
    rcases admit_cases absent possible fine with ⟨now,is⟩ | ⟨later,enough,ids,is⟩ | ⟨short,_,_,is⟩ | ⟨short,_,_,is⟩
    · simp [is,now]
    · simp [is,fine,later,enough]
    · simp [is,short]
    · simp [is,short]
  · simp [(admit_eq_none_iff absent possible).mpr fine,fine]

theorem admitted_iff : Admitted budget loaded wanted free ↔
    Calculable budget loaded wanted free ∧ RoomAfter budget loaded wanted free (candidates loaded wanted) := by
  by_cases fine : Calculable budget loaded wanted free
  · have keeps : RoomAfter budget loaded wanted free [] → RoomAfter budget loaded wanted free (candidates loaded wanted) :=
      fun now => now.mono List.nil_subperm
    rcases admit_cases absent possible fine with ⟨now,is⟩ | ⟨_,enough,ids,is⟩ | ⟨short,_,_,is⟩ | ⟨short,_,_,is⟩
    · simp [Admitted,is,fine,keeps now]
    · simp [Admitted,is,fine,enough]
    · simp [Admitted,is,short]
    · simp [Admitted,is,short]
  · simp [Admitted,(admit_eq_none_iff absent possible).mpr fine,fine]

theorem turnedDown_iff : TurnedDown budget loaded wanted free ↔
    Calculable budget loaded wanted free ∧ ¬ RoomAfter budget loaded wanted free (candidates loaded wanted) := by
  have parts : TurnedDown budget loaded wanted free ↔ (∃ message, budget.admit loaded wanted free = some (.Blocked message)) ∨
      ∃ message, budget.admit loaded wanted free = some (.Refuse message) := exists_or
  rw [parts,blocked_iff absent possible,refuse_iff absent possible]
  cases freesItself loaded wanted <;> simp

/-- A request that is told to wait is told that its entry never loads only where
    the residents alone leave it no room. -/
theorem blocked_never_loads {message : String} (blocked : budget.admit loaded wanted free = some (.Blocked message))
    {limit reserved left : ℕ} (never : message = neverLoads wanted limit reserved left loaded) :
    ∃ l, budget.limitMib = some l ∧ l < wanted.costMib + reservedMib loaded := by
  have fine : Calculable budget loaded wanted free := ((blocked_iff absent possible).mp ⟨message,blocked⟩).1
  have short := ((blocked_iff absent possible).mp ⟨message,blocked⟩).2.1
  rw [← enough_iff] at short
  obtain ⟨other,refused,names⟩ := weigh_refused fine short
  rw [admit_weigh free absent possible,refused] at blocked
  have same : other = message := by
    split_ifs at blocked with frees
    · simpa using blocked
    · simp at blocked
  exact names limit reserved left (same.trans never)

end Weighed

/-- When what is decided now agrees with what is decided once nothing is busy:
    `c`, `e` are that the call is calculable and that idle entries make room,
    `c'`, `y` the same of the later call, `r` that there is room already. -/
theorem agreement {c c' e y r : Prop} {frees : Bool} (quiet : frees = false → (c' ↔ c) ∧ (y ↔ e)) (more : e → y)
    (now : r → e ∧ (c' ↔ c)) :
    (((c ∧ ¬ e ∧ frees = true) ↔ ¬ (c ∧ e) ∧ c' ∧ ¬ r ∧ y) ∧ ((c ∧ ¬ e ∧ frees = false) ↔ c' ∧ ¬ y)) ↔
      (c ∧ (e ∨ frees = false ∨ (c' ∧ y))) ∨ (¬ c ∧ ¬ c') := by
  cases frees <;> simp only [reduceCtorEq,forall_const,false_implies,and_true,and_false,false_or,true_or,or_true] at quiet ⊢ <;>
    tauto

theorem waits_of_loaded (is : IsLoaded loaded wanted) : WaitsExactly budget loaded wanted free := by
  have now : budget.admit loaded wanted free = some .Fits := admit_loaded is
  have later : budget.admit (cleared loaded) wanted free = some .Fits := admit_loaded (isLoaded_cleared.mpr is)
  have never : ¬ ∃ message, budget.admit loaded wanted free = some (.Blocked message) := by simp [now]
  refine ⟨by simp [now,Admitted],by simp [now,later,TurnedDown],fun message is => absurd ⟨message,is⟩ never,?_⟩
  exact waits_of_blocked (fun blocked => absurd blocked never)

theorem waits_of_too_large (absent : ¬ IsLoaded loaded wanted) (large : TooLarge budget wanted) :
    WaitsExactly budget loaded wanted free := by
  obtain ⟨limit,is,exceeds⟩ := large
  have now := admit_too_large free absent is exceeds
  have later := admit_too_large free (isLoaded_cleared.not.mpr absent) is exceeds
  have never : ¬ ∃ message, budget.admit loaded wanted free = some (.Blocked message) := by simp [now]
  refine ⟨by simp [now,later],by simp [now,later,TurnedDown],fun message is => absurd ⟨message,is⟩ never,?_⟩
  exact waits_of_blocked (fun blocked => absurd blocked never)

/-- Waiting is offered exactly when it can help, where nothing is to be decided,
    where the call can be calculated and its idle entries make room, nothing
    on-demand is busy, or everything that can yield makes room once idle, and
    where no operation of either call stays in range. -/
theorem waits_exactly_iff : WaitsExactly budget loaded wanted free ↔
    IsLoaded loaded wanted ∨ TooLarge budget wanted ∨
    (Calculable budget loaded wanted free ∧ (RoomAfter budget loaded wanted free (candidates loaded wanted) ∨
      freesItself loaded wanted = false ∨
      (Calculable budget (cleared loaded) wanted free ∧ RoomAfter budget loaded wanted free (yielding loaded wanted)))) ∨
    (¬ Calculable budget loaded wanted free ∧ ¬ Calculable budget (cleared loaded) wanted free) := by
  by_cases already : IsLoaded loaded wanted
  · simp [already,waits_of_loaded]
  by_cases large : TooLarge budget wanted
  · simp [large,waits_of_too_large already large]
  simp only [already,large,false_or]
  have elsewhere : ¬ IsLoaded (cleared loaded) wanted := isLoaded_cleared.not.mpr already
  have later : RoomAfter budget (cleared loaded) wanted free (candidates (cleared loaded) wanted) ↔
      RoomAfter budget loaded wanted free (yielding loaded wanted) := by rw [← enough_iff,cleared_enough_iff]
  have unloads : (∃ ids, budget.admit (cleared loaded) wanted free = some (.Unload ids)) ↔ _ := unload_iff elsewhere large
  have turned : TurnedDown budget (cleared loaded) wanted free ↔ _ := turnedDown_iff elsewhere large
  rw [later] at unloads turned
  rw [roomAfter_cleared] at unloads
  have quiet : freesItself loaded wanted = false → (Calculable budget (cleared loaded) wanted free ↔
      Calculable budget loaded wanted free) ∧ (RoomAfter budget loaded wanted free (yielding loaded wanted) ↔
      RoomAfter budget loaded wanted free (candidates loaded wanted)) := by
    intro frees
    refine ⟨calculable_cleared_of_quiet frees,?_⟩
    rw [← later,candidates_cleared frees,roomAfter_cleared]
  have more : RoomAfter budget loaded wanted free (candidates loaded wanted) →
      RoomAfter budget loaded wanted free (yielding loaded wanted) := by
    intro enough
    rw [← roomAfter_idle] at enough
    rw [← later,roomAfter_cleared]
    exact enough.mono candidates_subperm_cleared
  have now : RoomAfter budget loaded wanted free [] → RoomAfter budget loaded wanted free (candidates loaded wanted) ∧
      (Calculable budget (cleared loaded) wanted free ↔ Calculable budget loaded wanted free) :=
    fun room => ⟨room.mono List.nil_subperm,calculable_cleared_of_room room⟩
  have agree := agreement quiet more now
  rw [← agree]
  constructor
  · rintro ⟨blocked,refused,_,_⟩
    rw [blocked_iff already large,admitted_iff already large,unloads] at blocked
    rw [refuse_iff already large,turned] at refused
    exact ⟨blocked,refused⟩
  · rintro ⟨offered,refused⟩
    rw [← blocked_iff already large,← admitted_iff already large,← unloads] at offered
    rw [← refuse_iff already large,← turned] at refused
    refine ⟨offered,refused,fun message is limit reserved left never => ?_,
      waits_of_blocked (fun blocked => (offered.mp blocked).2)⟩
    obtain ⟨l,limit_is,exceeds⟩ := blocked_never_loads already large is never
    have room := (unloads.mp (offered.mp ⟨message,is⟩).2).2.2
    exact absurd (beside_residents room limit_is) (Nat.not_le.mpr exceeds)

/-- A busy entry that is too small to help is no reason to come back. -/
theorem small_reader_offered_in_vain :
    let held : Loaded := ⟨"held",8,8,.Resident,false,0⟩
    let reading : Loaded := ⟨"reading",1,1,.OnDemand,true,0⟩
    ¬ WaitsExactly ⟨some 10⟩ [held,reading] ⟨"wanted",5,5⟩ none := by
  intro held reading waits
  have offered : ∃ message, Budget.admit ⟨some 10⟩ [held,reading] ⟨"wanted",5,5⟩ none = some (.Blocked message) :=
    ⟨_,rfl⟩
  obtain ⟨_,ids,unloads⟩ := waits.blocked.mp offered
  have refuses : ∃ message, Budget.admit ⟨some 10⟩ (cleared [held,reading]) ⟨"wanted",5,5⟩ none = some (.Refuse message) :=
    ⟨_,rfl⟩
  obtain ⟨message,is⟩ := refuses
  rw [is] at unloads
  simp at unloads

end Waits

end Maestro.Admission
