import ClawBox.Policy.Coordinator

namespace ClawBox.Policy

open Admission Monitor

abbrev Observed := { m : Measured // ∀ k x, m.get? k = some x → 0 ≤ x.frozen.amount ∧ 0 ≤ x.frozen.localAmount }

structure Observations where
  physical : Option (ℤ × ℤ) := none
  globalMemory : Option (ℤ × ℤ) := none
  pending : Option Observed := none

structure Figures where
  used : ℤ
  available : ℤ
  globalUsed : ℤ
  globalAvailable : ℤ
  capacity : ℤ
  budget : ℤ
  pendingLocal : ℤ
  pendingGlobal : ℤ
  measured : Option Observed := none
  deriving Inhabited

inductive CheckpointOutcome
  | paused
  | nothing
  | noCapacity
  | failed
  deriving DecidableEq

inductive Act
  | enqueue (t : Thread) (c : CoordId) (r : AdmissionRequest)
  | abandon (c : CoordId) (k : Ticket)
  | setBlockers (c : CoordId) (k : Ticket) (reasons : List Reason)
  | clearEvent (c : CoordId) (k : Ticket) (polls : Bool)
  | wakeUp (c : CoordId) (k : Ticket)
  | startReclaim (c : CoordId)
  | finishReclaim (c : CoordId) (failed : Bool) (now : ℤ)
  | commit (c : CoordId) (k : Ticket) (r : AdmissionRequest) (f : Figures) (reading : Reading)
  | release (c : CoordId) (session : Session) (amount : ℤ) (waitClass : WaitClass) (total : ℤ)
  | releaseCapacity (c : CoordId) (session : Session) (amount : ℤ)
  | releaseResident (c : CoordId) (session : Session)
  | unregister (c : CoordId) (session : Session)
  | setBlocked (c : CoordId) (blocked : Bool)
  | register (c : CoordId) (session : Session) (now : ℤ)
  | setActive (c : CoordId) (session : Session) (active : Bool) (now : ℤ)
  | claimVictim (c : CoordId) (resident : List Session) (exclude : Option Session)
  | releaseVictim (c : CoordId) (session : Session) (skipped : Bool)
  | markSevere (now : ℤ)
  | clearCongested
  | startWaiting (t : Thread) (session : Session)
  | stopWaiting (session : Session) (raises : Bool)
  | place (session : Session) (p : Placed)
  | unplace (session : Session)
  | storeFeedback (d : Domain) (memoryMib : ℕ) (f : Feedback)
  | clearFeedback
  | releasePlacement (session : Session)

def Act.Out : Act → Type
  | enqueue .. => Ticket
  | claimVictim .. => Option Session
  | _ => Unit

def Act.step (G : Plant) : (a : Act) → Step a.Out
  | enqueue t c r => Policy.enqueue t c r
  | abandon c k => Policy.abandon c k
  | setBlockers c k reasons => Policy.setBlockers c k reasons
  | clearEvent c k polls => Policy.clearEvent c k polls
  | wakeUp c k => Policy.wakeUp c k
  | startReclaim c => Policy.startReclaim c
  | finishReclaim c failed now => Policy.finishReclaim c failed now
  | commit c k r _ reading => Policy.commit (G.coord c) c k r reading
  | release c session amount waitClass total => Policy.release c session amount waitClass total
  | releaseCapacity c session amount => Policy.releaseCapacityClaim c session amount
  | releaseResident c session => Policy.releaseResident c session
  | unregister c session => Policy.unregister c session
  | setBlocked c blocked => Policy.setNewSessionAdmissionBlocked c blocked
  | register c session now => Policy.register c session now
  | setActive c session active now => Policy.setActive c session active now
  | claimVictim c resident exclude => Policy.claimVictim (G.coord c) c resident exclude
  | releaseVictim c session skipped => Policy.releaseVictim c session skipped
  | markSevere now => Policy.markSevere now
  | clearCongested => Policy.clearCongested
  | startWaiting t session => Policy.startWaiting t session
  | stopWaiting session _ => Policy.stopWaiting session
  | place session p => Policy.place session p
  | unplace session => Policy.unplace session
  | storeFeedback d memoryMib f => Policy.storeFeedback d memoryMib f
  | clearFeedback => Policy.clearFeedback
  | releasePlacement session => Policy.releasePlacement session

inductive Ask
  -- outside admission
  | physical (c : CoordId)
  | globalMemory
  | pendingDemand
  | hostPhysical (c : CoordId)
  | eventWait (seconds : Option ℤ)
  | conditionWait
  -- `entry` is how deep the caller was when it entered `acquire`
  | pressureRelief (c : CoordId) (entry : ℕ)
  | checkpoint (c : CoordId) (session : Session) (entry : ℕ)
  | operation (c : CoordId) (session : Session)
  | emit (session : Session)
  -- under the condition as well
  | leads
  | monotonic
  | check
  | severe (used : ℤ)
  | resident (c : CoordId) (session : Session)
  | runtimeResident (c : CoordId) (session : Session)
  | sampler (session : Session)
  | cpuSample
  | rankingSample (c : CoordId)
  -- the caller of `acquire` is back at the depth at which it called
  | returned (depth : ℕ)
  deriving DecidableEq

abbrev Ask.Ans : Ask → Type
  | physical _ => Option (ℤ × ℤ)
  | globalMemory => Option (ℤ × ℤ)
  | pendingDemand => Option Observed
  | hostPhysical _ => Option (ℤ × ℤ)
  | eventWait _ => Unit
  | conditionWait => Unit
  | pressureRelief _ _ => Option Bool
  | checkpoint _ _ _ => CheckpointOutcome
  -- whether it succeeds, and else whether the failure is a conflict (409)
  | operation _ _ => Bool × Bool
  | emit _ => Bool
  | leads => Bool
  | monotonic => ℤ
  | check => Bool
  | severe _ => Option Bool
  | resident _ _ => Bool
  | runtimeResident _ _ => Bool
  | sampler _ => Reading
  | cpuSample => Option (Domain → List ℚ)
  | rankingSample _ => Option (ℤ × ℤ)
  | returned _ => Unit

/-- The places at which the condition changes hands. The first three are between the figures that a check keeps and
its decision. -/
inductive Site
  | budgetKept (c : CoordId)
  | pendingKept (c : CoordId)
  | capacityKept (c : CoordId)
  | sleeping (c : CoordId) (k : Ticket)
  | other
  deriving DecidableEq

structure Window where
  site : Site := .other
  counted : List Domain := []
  deriving DecidableEq

-- none is the gate of the load-aware placements
abbrev Gate := Option Domain

def sig (G : Plant) : Sig where
  State := World
  Ask := Ask
  Ans := Ask.Ans
  Act := Act
  Res a := Except Error a.Out
  run a s := (a.step G).run s
  Window := Window
  Gate := Gate

variable (G : Plant)

abbrev M := Code (sig G) Error

variable {G}

def perform (a : Act) : M G a.Out := do
  let r ← @Code.act (sig G) Error a
  Code.result r

def getState : M G World := @Code.read (sig G) Error

def query (q : Ask) : M G q.Ans := @Code.ask (sig G) Error q

def monotonic : M G ℤ := query .monotonic

def ensure (p : Prop) [Decidable p] (e : Error) : M G Unit := if p then pure () else throw e

def sampled {α : Type} (x : M G (Option α)) : M G α := do
  match ← x with
  | some a => pure a
  | none => throw .sampleFailed

def withCondition {α : Type} (x : M G α) : M G α := Code.locked (S := sig G) ({} : Window) x

section Observation

variable (c : CoordId)

def physicalSample : M G (ℤ × ℤ) := sampled (query (.physical c))

def globalSample : M G (ℤ × ℤ) := sampled (query .globalMemory)

def physicalSampleLocked (w : Window) : M G (ℤ × ℤ) := Code.unlocked (S := sig G) w (physicalSample c)

def globalSampleLocked (w : Window) : M G (ℤ × ℤ) := Code.unlocked (S := sig G) w globalSample

def admissionObservations : M G (Option (ℤ × ℤ) × Option (ℤ × ℤ)) := do
  if (G.coord c).residentCapacityAccounting then return (none, none)
  let physical ← physicalSample c
  let globalMemory ← globalSample
  return (some physical, some globalMemory)

def pendingObservation : M G Observed := do
  withCondition (pure ())
  Code.tryFinally (sampled (query .pendingDemand)) do
    if ← query .leads then withCondition (pure ())

def effectiveBudget (conf : Conf) (existingProgress : Bool) (used : ℤ) (reservations : PyDict Session ℤ) : ℕ :=
  if existingProgress ∧ (conf.budget ≤ used ∨ reservations.entries = []) then conf.progressBudget else conf.budget

def queuedCreation (s : World) : Bool :=
  s.demand.claims.entries ≠ [] && (s.coords c).waiterRequests.values.any (·.waitClass = .create)

def pendingObservationNeeded (s : World) (amount total : ℕ) (existingProgress : Bool) (physical globalMemory : ℤ × ℤ) :
    Bool :=
  let conf := G.coord c
  let budget : ℤ := effectiveBudget conf existingProgress physical.1 (s.coords c).reservations
  let baseLocal := physical.1 + amount + conf.operationHeadroom
  let baseGlobal := globalMemory.1 + s.demand.margin + total + conf.operationHeadroom
  if (baseLocal > budget ∧ ¬ (existingProgress ∧ amount = 0)) ∨ baseGlobal > s.demand.capacity then queuedCreation c s
  else
    physical.1 + s.demand.pendingUpperBound (some conf.scope) + amount + conf.operationHeadroom > budget ∨
      globalMemory.1 + s.demand.pendingUpperBound none + s.demand.margin + total + conf.operationHeadroom >
        s.demand.capacity

def admissionSnapshot (amount total : ℕ) (existingProgress : Bool) : M G Observations := do
  match ← admissionObservations c with
  | (some physical, some globalMemory) =>
    let s ← getState
    if queuedCreation c s || pendingObservationNeeded (G := G) c s amount total existingProgress physical
      globalMemory then
      let pending ← pendingObservation
      let (physical, globalMemory) ← admissionObservations c
      return ⟨physical, globalMemory, some pending⟩
    else return ⟨some physical, some globalMemory, none⟩
  | (physical, globalMemory) => return ⟨physical, globalMemory, none⟩

end Observation

section Check

structure Check where
  amount : ℕ
  capacityClaim : Bool := false
  existingProgress : Bool := false
  total : Option ℕ := none
  firstBudgetBlockerOnly : Bool := false
  observations : Observations := {}
  -- not in the source: whether the check decides an admission, and the domains that the placement has counted
  decides : Bool := false
  counted : List Domain := []

def Check.window (q : Check) (site : Site) : Window := ⟨if q.decides then site else .other, q.counted⟩

def Check.allTotal (q : Check) : ℕ := q.total.getD q.amount

def Check.growth (q : Check) : ℕ := if q.capacityClaim then 0 else q.amount

/-- A Tool request without local growth is not held to the local budget. -/
def Check.exempt (q : Check) : Prop := q.existingProgress ∧ q.amount = 0

instance (q : Check) : Decidable q.exempt := inferInstanceAs (Decidable (_ ∧ _))

def localCharge (conf : Conf) (q : Check) (f : Figures) : ℤ :=
  max f.used f.capacity + (f.pendingLocal + q.growth) + conf.operationHeadroom

def globalCharge (conf : Conf) (L : DemandLedger) (q : Check) (f : Figures) : ℤ :=
  f.globalUsed + f.pendingGlobal + L.margin + conf.operationHeadroom + q.allTotal

variable (c : CoordId)

def healthCheck : M G Unit := do
  let ok ← query .check
  ensure ok .checkFailed

def updateCongestion (committed : ℤ) (severe : Bool) : M G Unit := do
  if severe then
    let now ← monotonic
    perform (.markSevere now)
  else
    let s ← getState
    if s.demand.congested then
      if committed * G.exitDen ≤ s.demand.capacity * G.exitNum then perform .clearCongested
      else
        match s.lastSevereAt with
        | some since =>
          let now ← monotonic
          if 1000 ≤ now - since then perform .clearCongested else pure ()
        | none => pure ()
    else pure ()

def demandReasons (q : Check) (f : Figures) : M G (List Reason) := do
  healthCheck
  let conf := G.coord c
  let L := (← getState).demand
  let severe ← sampled (query (.severe f.globalUsed))
  updateCongestion (f.globalUsed + f.pendingGlobal + L.margin + conf.operationHeadroom) severe
  let congested := (← getState).demand.congested
  return (if globalCharge conf L q f > L.capacity then [.globalMemoryBudget] else []) ++
    (if congested then [.sustainedMemoryCongestion] else []) ++
    (if f.globalAvailable < L.freeFloor then [.hostFreeFloor] else [])

def finalReasons (q : Check) (f : Figures) : M G (List Reason × Figures) := do
  let conf := G.coord c
  let reasons :=
    (if localCharge conf q f > f.budget ∧ ¬ q.exempt then [.configuredMemoryBudget] else []) ++
    (if f.available < conf.emergencyFree then [.emergencyFreeMemory] else [])
  return (reasons ++ (← demandReasons c q f), f)

def capacityFor (q : Check) (s : World) : ℤ := s.capacity c + if q.capacityClaim then q.amount else 0

def budgetFor (q : Check) (used : ℤ) (s : World) : ℤ :=
  effectiveBudget (G.coord c) q.existingProgress used (s.coords c).reservations

def pendingBreakdown (w : Window) : M G Observed :=
  Code.unlocked (S := sig G) w (sampled (query .pendingDemand))

def reconcile (m : Observed) : M G (ℤ × ℤ) := do
  match (← getState).demand.pendingFromObservation (G.coord c).scope m.val with
  | some r => pure r
  | none => throw .sampleFailed

def exactFigures (q : Check) (f : Figures) : M G Figures := do
  match q.observations.pending with
  | some m =>
    let pending ← reconcile c m
    let s ← getState
    return { f with
      capacity := capacityFor c q s, budget := budgetFor (G := G) c q f.used s
      pendingGlobal := pending.1, pendingLocal := pending.2, measured := some m }
  | none =>
    let m ← pendingBreakdown (q.window .other)
    let pending ← reconcile c m
    let physical ← physicalSampleLocked c (q.window (.pendingKept c))
    let capacity := capacityFor c q (← getState)
    let globalMemory ← globalSampleLocked (q.window (.capacityKept c))
    let s ← getState
    return { used := physical.1, available := physical.2
             globalUsed := globalMemory.1, globalAvailable := globalMemory.2
             capacity := capacity, budget := budgetFor (G := G) c q physical.1 s
             pendingGlobal := pending.1, pendingLocal := pending.2, measured := some m }

def upperFigures (f : Figures) (s : World) : Figures :=
  { f with
    pendingLocal := s.demand.pendingUpperBound (some (G.coord c).scope)
    pendingGlobal := s.demand.pendingUpperBound none
    measured := none }

def physicalFor (q : Check) : M G (ℤ × ℤ) :=
  match q.observations.physical with
  | some p => pure p
  | none => physicalSampleLocked c (q.window .other)

def globalFor (q : Check) : M G (ℤ × ℤ) :=
  match q.observations.globalMemory with
  | some p => pure p
  | none => globalSampleLocked (q.window (.budgetKept c))

/-- With `first_budget_blocker_only`: the budget that resident usage alone exceeds. -/
def budgetBlocker (q : Check) (f : Figures) : M G (Option Reason) := do
  healthCheck
  let L := (← getState).demand
  return if localCharge (G.coord c) q f > f.budget ∧ ¬ q.exempt then some .configuredMemoryBudget
    else if globalCharge (G.coord c) L q f > L.capacity then some .globalMemoryBudget
    else none

def chargedReasons (q : Check) (f : Figures) : M G (List Reason × Figures) := do
  let s ← getState
  let upper := upperFigures (G := G) c f s
  if localCharge (G.coord c) q upper ≤ upper.budget ∧ globalCharge (G.coord c) s.demand q upper ≤ s.demand.capacity then
    finalReasons c q upper
  else
    let exact ← exactFigures c q f
    finalReasons c q exact

def blockedReasons (q : Check) (f : Figures) : M G (List Reason × Figures) := do
  match ← budgetBlocker c q f with
  | some reason => return ([reason], f)
  | none => chargedReasons c q f

def baseFigures (q : Check) : M G Figures := do
  let physical ← physicalFor c q
  let s ← getState
  let globalMemory ← globalFor c q
  return { used := physical.1, available := physical.2
           globalUsed := globalMemory.1, globalAvailable := globalMemory.2
           capacity := capacityFor c q s, budget := budgetFor (G := G) c q physical.1 s
           pendingLocal := 0, pendingGlobal := 0 }

def residentReasons (q : Check) : M G (List Reason × Figures) := do
  let s ← getState
  let resident := (s.coords c).residentCapacityClaims.sum fun _ v => v
  return (if resident + q.amount > (G.coord c).budget then [.residentCapacityBudget] else [], default)

def pressureReasons (q : Check) : M G (List Reason × Figures) := do
  if (G.coord c).residentCapacityAccounting then residentReasons c q
  else
    let f ← baseFigures c q
    if q.firstBudgetBlockerOnly then blockedReasons c q f else chargedReasons c q f

end Check

section Queue

variable (c : CoordId)

def headroomWalk (session : Session) : List (Session × SessionState) → M G Bool
  | [] => pure false
  | (other, x) :: rest => do
    if other = session then headroomWalk session rest
    else if !(← query (.resident c other)) then headroomWalk session rest
    else if !x.hasRuntime then pure true
    else if ← query (.runtimeResident c other) then pure true
    else headroomWalk session rest

def startupHeadroomNeeded (session : Session) : M G Bool := do
  headroomWalk c session ((← getState).coords c).sessions.entries

def startupExtra (session : Session) : M G ℕ := do
  if ← startupHeadroomNeeded c session then pure (G.coord c).startupHeadroom else pure 0

def creationFits (oldest : AdmissionRequest) (observations : Observations) : M G Bool := do
  let extra ← startupExtra c oldest.session
  if ((← getState).coords c).newSessionAdmissionBlocked && !(G.coord c).residentCapacityAccounting then return false
  let (reasons, _) ← pressureReasons c
    { amount := oldest.amount + extra, capacityClaim := oldest.capacityClaim
      firstBudgetBlockerOnly := true, observations := observations }
  return reasons.isEmpty

def headWalk (observations : Observations) (snapshot : List Ticket) :
    List Ticket → Option Ticket → M G (Option (Option Ticket))
  | [], first => pure (some first)
  | k :: ks, first => do
    let s ← getState
    match (s.coords c).waiterRequests.get? k with
    | none => pure none
    | some r =>
      if r.inflight s.demand.claims then headWalk observations snapshot ks first
      else
        let oldest := first.getD k
        if ((s.coords c).progressWaiters.get? k).isSome then
          match (s.coords c).waiterRequests.get? oldest with
          | none => pure none
          | some o =>
            if oldest ≠ k ∧ o.waitClass = .create then
              let fits ← creationFits c o observations
              if ((← getState).coords c).waiters ≠ snapshot then pure none
              else if fits then pure (some (some oldest))
              else pure (some (some k))
            else pure (some (some k))
        else headWalk observations snapshot ks (some oldest)

def headRound (observations : Observations) : M G (Unit ⊕ Option Ticket) := do
  let snapshot := ((← getState).coords c).waiters
  match ← headWalk c observations snapshot snapshot none with
  | none => return .inl ()
  | some head => return .inr head

def admissionHead (observations : Observations) : M G (Option Ticket) :=
  Code.forever (S := sig G) (fun _ => headRound c observations) ()

def prefixWalk (claims : PyDict Key Claim) (C : Coordinator) (k : Ticket) :
    List Ticket → ℕ → ℕ → ℕ → Except Error (Option (ℕ × ℕ))
  | [], _, _, _ => .ok none
  | j :: js, count, amount, total =>
    match C.waiterRequests.get? j with
    | none => .error .missingKey
    | some r =>
      if r.inflight claims ∨ (C.progressWaiters.get? j).isNone then prefixWalk claims C k js count amount total
      else if count + 1 > progressWakeBatch then .ok none
      else if j = k then .ok (some (amount + r.amount, total + r.total))
      else prefixWalk claims C k js (count + 1) (amount + r.amount) (total + r.total)

def feasibleProgressPrefix (s : World) (k : Ticket) (head : Option Ticket) : Except Error (Option (ℕ × ℕ)) :=
  let C := s.coords c
  match head with
  | none => .ok none
  | some h =>
    if (C.progressWaiters.get? k).isNone then .ok none
    else
      match C.waiterRequests.get? h with
      | none => .error .missingKey
      | some r =>
        if r.waitClass ≠ .toolAdmission then .ok none
        else prefixWalk s.demand.claims C k C.waiters 0 0 0

end Queue

section Relief

variable (c : CoordId) (entry : ℕ)

def residentSessions : List (Session × SessionState) → M G (List Session)
  | [] => pure []
  | (session, _) :: rest => do
    let present ← query (.resident c session)
    let others ← residentSessions rest
    pure (if present then session :: others else others)

def claimVictimFor (exclude : Option Session) : M G (Option Session) := withCondition do
  let resident ← residentSessions c ((← getState).coords c).sessions.entries
  perform (.claimVictim c resident exclude)

def countPause : CheckpointOutcome → M G Unit
  | .paused => withCondition (pure ())
  | .nothing => withCondition (pure ())
  | .noCapacity => pure ()
  | .failed => pure ()

def evictOneForWatermark (exclude : Option Session) : M G Bool := do
  match ← claimVictimFor c exclude with
  | none => pure false
  | some v =>
    let outcome ← query (.checkpoint c v entry)
    countPause outcome
    withCondition (perform (.releaseVictim c v (outcome = .noCapacity)))
    ensure (outcome ≠ .failed) .reliefFailed
    return outcome = .paused

def relievePressure (exclude : Option Session) : M G Bool := do
  if (G.coord c).pressureRelief then
    match ← query (.pressureRelief c entry) with
    | some relieved => pure relieved
    | none => throw .reliefFailed
  else evictOneForWatermark c entry exclude

end Relief

section Acquire

structure AcquireArgs where
  session : Session
  amountMib : ℕ
  timeout : Option ℤ := none
  waitClass : WaitClass := .toolAdmission
  capacityClaim : Bool := false
  totalMib : Option ℕ := none
  blockedHeadTimeout : Option ℤ := none
  observations : Option Observations := none

def AcquireArgs.request (a : AcquireArgs) : AdmissionRequest :=
  { session := a.session, amount := a.amountMib * mib, waitClass := a.waitClass
    capacityClaim := a.capacityClaim, total := a.totalMib.getD a.amountMib * mib }

/-- The local variables that one round of the loop of `acquire` leaves to the next. -/
structure Attempt where
  observations : Observations
  blockedHeadSince : Option ℤ := none

structure Round where
  atHead : Bool
  canAttempt : Bool
  reasons : List Reason

variable (c : CoordId) (a : AcquireArgs) (k : Ticket) (deadline : Option ℤ) (entry : ℕ)

def decisionExtra : M G ℕ := do
  if a.waitClass = .create then startupExtra c a.session else pure 0

def decisionCheck (batch : Option (ℕ × ℕ)) (observations : Observations) : M G (List Reason × Figures) := do
  let r := a.request
  let extra ← decisionExtra c a
  let extraTotal ← decisionExtra c a
  pressureReasons c
    { amount := (batch.map Prod.fst).getD r.amount + extra, capacityClaim := r.capacityClaim
      existingProgress := r.waitClass = .toolAdmission
      total := some ((batch.map Prod.snd).getD r.total + extraTotal)
      firstBudgetBlockerOnly := batch.isSome, observations := observations, decides := true }

def batchFor (head : Option Ticket) : M G (Option (ℕ × ℕ)) := do
  let s ← getState
  if head = some k ∨ a.request.inflight s.demand.claims then pure none
  else Code.result (S := sig G) (feasibleProgressPrefix c s k head)

def decisionFor (canAttempt : Bool) (batch : Option (ℕ × ℕ)) (observations : Observations) :
    M G (List Reason × Figures) :=
  if canAttempt then decisionCheck c a batch observations else pure ([], default)

def considerTicket (b : Attempt) : M G (Round × Figures) := do
  ensure (¬ ((← getState).coords c).cacheReclaimError) .cacheReclaimFailed
  let head ← admissionHead c b.observations
  let atHead : Bool := head = some k
  let inflight := a.request.inflight (← getState).demand.claims
  let batch ← batchFor c a k head
  let canAttempt := atHead || batch.isSome
  let (reasons, f) ← decisionFor c a canAttempt batch b.observations
  let reasons := if inflight then reasons ++ [.executionAlreadyInflight] else reasons
  let blocked := ((← getState).coords c).newSessionAdmissionBlocked
  let reasons := if atHead ∧ a.waitClass = .create ∧ blocked ∧ ¬ (G.coord c).residentCapacityAccounting then
      reasons ++ [.localHighHysteresis] else reasons
  return ({ atHead := atHead, canAttempt := canAttempt, reasons := reasons }, f)

def blockedSince (x : Round) (b : Attempt) : M G (Option ℤ) := do
  let oldest := ((← getState).coords c).waiters.head? = some k
  if (x.atHead ∧ x.reasons ≠ []) ∨ (a.waitClass = .create ∧ ¬ x.atHead ∧ oldest) then
    let now ← monotonic
    let since := b.blockedHeadSince.getD now
    ensure (∀ limit ∈ a.blockedHeadTimeout, now - since < limit) (.headBlocked a.session)
    return some since
  else return none

def requestReclaim (x : Round) : M G Unit := do
  let C := (← getState).coords c
  if x.atHead ∧ .configuredMemoryBudget ∈ x.reasons ∧ (G.coord c).reclaimCache ∧ ¬ C.cacheReclaimRunning then
    let now ← monotonic
    if ∀ last ∈ C.lastCacheReclaim, 2000 ≤ now - last then perform (.startReclaim c) else pure ()
  else pure ()

def relieved (x : Round) : M G Bool := do
  if x.atHead ∧ ¬ (G.coord c).residentCapacityAccounting ∧ .executionAlreadyInflight ∉ x.reasons then
    Code.released (S := sig G) ({} : Window) (relievePressure c entry (some a.session))
  else pure false

def remaining : M G (Option ℤ) := do
  match deadline with
  | none => return none
  | some d =>
    let left := d - (← monotonic)
    ensure (0 < left) (.admissionTimeout a.session)
    return some left

def pollInterval : ℤ := 200

def awaitTurn (x : Round) : M G Observations := do
  let left ← remaining a deadline
  let seconds := if x.canAttempt then some (min pollInterval (left.getD pollInterval)) else left
  perform (.clearEvent c k x.canAttempt)
  let r := a.request
  let observations ← Code.unlocked (S := sig G) ({ site := .sleeping c k } : Window) do
    query (.eventWait seconds)
    admissionSnapshot c r.amount r.total (r.waitClass = .toolAdmission)
  perform (.wakeUp c k)
  return observations

def nextObservations (x : Round) : M G Observations := do
  if ← relieved c a entry x then pure {} else awaitTurn c a k deadline x

def holdBack (b : Attempt) (x : Round) : M G (Attempt ⊕ Figures) := do
  perform (.setBlockers c k (if x.canAttempt then x.reasons else [.fifoPredecessor]))
  let since ← blockedSince c a k x b
  requestReclaim c x
  let observations ← nextObservations c a k deadline entry x
  return .inl ⟨observations, since⟩

def attemptRound (b : Attempt) : M G (Attempt ⊕ Figures) := do
  let (x, f) ← considerTicket c a k b
  if x.canAttempt ∧ x.reasons = [] then pure (.inr f) else holdBack c a k deadline entry b x

def claimReading : M G Reading := do
  let C := (← getState).coords c
  if a.waitClass ≠ .toolAdmission ∧ (C.memorySamples.get? a.session).isSome then query (.sampler a.session)
  else pure none

def commitClaim (f : Figures) : M G Unit := do
  let reading ← claimReading c a
  perform (.commit c k a.request f reading)

variable (t : Thread)

def admitEntry (observations : Observations) : M G Unit := withCondition do
  let k ← (perform (.enqueue t c a.request) : M G Ticket)
  let outcome ← Code.attempt (S := sig G) do
    let f ← Code.forever (S := sig G) (attemptRound c a k deadline entry) ⟨observations, none⟩
    commitClaim c a k f
  match outcome with
  | .ok () => pure ()
  | .error e =>
    perform (.abandon c k)
    throw e

def recordWait : M G Unit := withCondition (pure ())

def acquireUnmanaged : M G ℤ := do
  ensure (a.request.amount = 0 ∧ a.request.total = 0) .osManagedReservation
  let sample ← sampled (query (.hostPhysical c))
  ensure ((G.coord c).emergencyFree ≤ sample.2) .hostFloor
  return 0

def acquireNothing (started : ℤ) : M G ℤ := do
  let now ← monotonic
  recordWait
  return now - started

def observationsFor : M G Observations :=
  match a.observations with
  | some o => pure o
  | none => admissionSnapshot c a.request.amount a.request.total (a.waitClass = .toolAdmission)

def acquireManaged (started : ℤ) : M G ℤ := do
  let observations ← observationsFor c a
  admitEntry c a (a.timeout.map (started + ·)) entry t observations
  let now ← monotonic
  recordWait
  return now - started

def acquire : M G ℤ := do
  let started ← monotonic
  if (G.coord c).osManagedLifecycle ∧ a.waitClass = .create then acquireUnmanaged c a
  else if a.request.amount = 0 ∧ a.request.total = 0 ∧ a.waitClass = .toolAdmission then acquireNothing started
  else acquireManaged c a entry t started

end Acquire

end ClawBox.Policy
