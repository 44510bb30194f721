import ClawBox.Policy.Acquire

namespace ClawBox.Policy

open Admission Monitor

variable {G : Plant}

section Coordinator

variable (c : CoordId)

def releaseCall (session : Session) (amountMib : ℕ) (waitClass : WaitClass) (totalMib : Option ℕ) : M G Unit := do
  let total := totalMib.getD amountMib
  if waitClass = .toolAdmission ∧ amountMib = 0 ∧ total = 0 then pure ()
  else withCondition (perform (.release c session (amountMib * mib : ℕ) waitClass (total * mib : ℕ)))

def acquireCapacity (session : Session) (amountMib : ℕ) (timeout : ℤ) (entry : ℕ) (t : Thread) : M G ℤ :=
  acquire c { session, amountMib, timeout := some timeout, capacityClaim := true } entry t

def evictionRound (session : Session) : M G (Unit ⊕ Unit) := do
  let x := ((← getState).coords c).sessions.get? session
  if (x.map (·.evictionInProgress)).getD false then
    Code.unlocked (S := sig G) ({} : Window) (query .conditionWait)
    return .inl ()
  else return .inr ()

def awaitEviction (session : Session) : M G Unit := Code.forever (S := sig G) (fun _ => evictionRound c session) ()

def knownSession (session : Session) : M G Unit := do
  ensure ((((← getState).coords c).sessions.get? session).isSome) .missingKey

def markActive (session : Session) (active : Bool) : M G Unit := do
  let now ← monotonic
  perform (.setActive c session active now)

def awaitInactive (session : Session) (active : Bool) : M G Unit :=
  if active then awaitEviction c session else pure ()

def setToolActive (session : Session) (active : Bool) : M G Unit := withCondition do
  knownSession c session
  awaitInactive c session active
  markActive c session active

structure ToolArgs where
  session : Session
  amountMib : ℕ
  timeout : ℤ
  totalMib : Option ℕ := none
  alreadyActive : Bool := false

def ToolArgs.acquire (x : ToolArgs) (o : Observations) : AcquireArgs :=
  { session := x.session, amountMib := x.amountMib, timeout := some x.timeout, totalMib := x.totalMib
    observations := some o }

def toolObservations (x : ToolArgs) : M G Observations :=
  if x.amountMib ≠ 0 ∨ x.totalMib.getD 0 ≠ 0 then
    admissionSnapshot c (x.amountMib * mib) (x.totalMib.getD x.amountMib * mib) true
  else pure {}

def beginToolAdmission (x : ToolArgs) (entry : ℕ) (t : Thread) : M G ℤ := do
  let observations ← toolObservations c x
  if x.alreadyActive then
    match ← Code.attempt (S := sig G) (acquire c (x.acquire observations) entry t) with
    | .ok waited => return waited
    | .error e =>
      setToolActive c x.session false
      throw e
  else withCondition do
    knownSession c x.session
    awaitEviction c x.session
    markActive c x.session true
    match ← Code.attempt (S := sig G) (acquire c (x.acquire observations) (entry + 1) t) with
    | .ok waited => return waited
    | .error e =>
      markActive c x.session false
      throw e

def runOperation (session : Session) : M G Unit := do
  let (ok, conflict) ← query (.operation c session)
  ensure ok (.operationFailed conflict)

def materialize (session : Session) (amountMib : ℕ) (timeout : ℤ) (entry : ℕ) (t : Thread) : M G ℤ := do
  let waited ← acquire c { session, amountMib, timeout := some timeout, waitClass := .create } entry t
  Code.tryFinally (S := sig G) (runOperation c session) (releaseCall c session amountMib .create none)
  return waited

def restoreOperation (session : Session) (entry : ℕ) : M G Unit := do
  match ← Code.attempt (S := sig G) (runOperation c session) with
  | .ok () => pure ()
  | .error (.operationFailed true) =>
    let evicted ← evictOneForWatermark c entry (some session)
    ensure evicted .restoreRejected
    runOperation c session
  | .error e => throw e

def restore (session : Session) (amountMib : ℕ) (timeout : ℤ) (entry : ℕ) (t : Thread) : M G ℤ := do
  let waited ← acquire c { session, amountMib, timeout := some timeout, waitClass := .restore } entry t
  Code.tryFinally (S := sig G) (restoreOperation c session entry) (releaseCall c session amountMib .restore none)
  return waited

def reclaimThread (failed : Bool) : M G Unit := withCondition do
  let now ← monotonic
  perform (.finishReclaim c failed now)

end Coordinator

section Placement

structure PlaceArgs where
  session : Session
  vcpus : ℕ
  memoryMib : ℕ
  timeout : ℤ
  fixed : Option Domain := none
  template : Option ℕ := none
  templateAware : Bool := false
  templateSharingSupported : Bool := false
  balanceSlack : ℚ := 1 / 10

structure Candidate where
  blocked : Bool
  score : ℚ
  domain : Domain
  peers : ℕ

def sampleFeedback (counted : List Domain) (d : Domain) (memoryMib : ℕ) (now : ℤ) : M G Feedback := do
  let c := G.coordinator d
  let used ← sampled (query (.rankingSample c))
  let pending := (← getState).demand.pendingUpperBound (some (G.coord c).scope)
  let (reasons, _) ← pressureReasons c
    { amount := memoryMib * mib + (G.coord c).startupHeadroom, counted := counted }
  perform (.storeFeedback d memoryMib ⟨now, used.1, pending, reasons⟩)
  return ⟨now, used.1, pending, reasons⟩

/-- `_placement_memory`; its check gives the condition away when it has to sample. -/
def placementMemory (counted : List Domain) (d : Domain) (memoryMib : ℕ) : M G Feedback := do
  let now ← monotonic
  match (← getState).memoryFeedback.get? (d, memoryMib) with
  | some f => if now - f.sampledAt < 200 then pure f else sampleFeedback counted d memoryMib now
  | none => sampleFeedback counted d memoryMib now

def fitsCpu (G : Plant) (s : World) (d : Domain) (vcpus : ℕ) : Bool := (s.offered d + vcpus : ℤ) ≤ G.cpuCapacity d

def peers (s : World) (d : Domain) (template : Option ℕ) : ℕ :=
  (s.placed.values.filter fun p => p.domain = d ∧ p.template = template).length

def rankDomain (x : PlaceArgs) (cpu : Domain → List ℚ) (counted : List Domain) (d : Domain) (offered : ℤ) :
    M G Candidate := do
  let c := G.coordinator d
  let f ← placementMemory counted d x.memoryMib
  let memoryPressure : ℚ :=
    (f.used + f.pending + x.memoryMib * mib + (G.coord c).operationHeadroom : ℤ) / ((G.coord c).budget : ℚ)
  let cpuPressure : ℚ := (cpu d).foldl max (offered / G.cpuCapacity d)
  let s ← getState
  let held := (s.coords c).newSessionAdmissionBlocked && !(G.coord c).residentCapacityAccounting
  return ⟨!f.reasons.isEmpty || held, (cpuPressure + memoryPressure) / 2, d, peers s d x.template⟩

def rankDomains (x : PlaceArgs) (cpu : Domain → List ℚ) : List Domain → List Domain → M G (List Candidate)
  | _, [] => pure []
  | counted, d :: ds => do
    let s ← getState
    if fitsCpu G s d x.vcpus then
      let candidate ← rankDomain x cpu (d :: counted) d (s.offered d)
      let rest ← rankDomains x cpu (d :: counted) ds
      return candidate :: rest
    else rankDomains x cpu counted ds

def Candidate.before (a b : Candidate) : Bool :=
  if a.blocked ≠ b.blocked then b.blocked else if a.score ≠ b.score then a.score < b.score else a.domain < b.domain

def Candidate.affine (a b : Candidate) : Bool :=
  if a.peers ≠ b.peers then b.peers < a.peers else if a.score ≠ b.score then a.score < b.score else a.domain < b.domain

def firstMin (lt : Candidate → Candidate → Bool) : List Candidate → Option Candidate
  | [] => none
  | a :: l =>
    match firstMin lt l with
    | none => some a
    | some b => if lt b a then some b else some a

def choose (x : PlaceArgs) (candidates : List Candidate) : Option Candidate :=
  let feasible := candidates.filter (!·.blocked)
  let ranked := if feasible.isEmpty then candidates else feasible
  let affinity := x.fixed.isNone && x.templateAware && x.template.isSome && x.templateSharingSupported &&
    !feasible.isEmpty
  if affinity then
    let best := (feasible.map (·.score)).foldl min ((feasible.map (·.score)).headD 0)
    firstMin Candidate.affine (feasible.filter fun a => a.score ≤ best + x.balanceSlack)
  else firstMin Candidate.before ranked

def chooseAndRecord (x : PlaceArgs) (keys : List Domain) (started timeout : ℤ) : M G (Option (Domain × ℤ)) :=
  withCondition do
    let left := timeout - ((← monotonic) - started)
    ensure (0 < left) (.placementTimeout x.session)
    let cpu ← sampled (query .cpuSample)
    let candidates ← rankDomains x cpu [] keys
    match choose x candidates with
    | none =>
      Code.unlocked (S := sig G) ({} : Window) (query .conditionWait)
      return none
    | some choice =>
      perform (.place x.session ⟨choice.domain, x.vcpus, x.template⟩)
      return some (choice.domain, left)

def unplaceSession (session : Session) : M G Unit := withCondition (perform (.unplace session))

def announce (x : PlaceArgs) (d : Domain) : M G Unit := do
  let announced ← Code.attempt (S := sig G) do
    withCondition (perform .clearFeedback)
    let emitted ← query (.emit x.session)
    ensure emitted .emitFailed
  match announced with
  | .ok () => pure ()
  | .error e =>
    let c := G.coordinator d
    releaseCall c x.session x.memoryMib .create none
    withCondition (perform (.releaseResident c x.session))
    unplaceSession x.session
    throw e

def placementRound (x : PlaceArgs) (keys : List Domain) (started timeout : ℤ) (entry : ℕ) (t : Thread) :
    M G (Unit ⊕ Domain) := do
  match ← chooseAndRecord x keys started timeout with
  | none => return .inl ()
  | some (d, left) =>
    let reserved ← Code.attempt (S := sig G) (acquire (G.coordinator d)
      { session := x.session, amountMib := x.memoryMib, timeout := some left, waitClass := .create
        blockedHeadTimeout := some pollInterval } entry t)
    match reserved with
    | .error e =>
      unplaceSession x.session
      ensure e.isTimeout e
      return .inl ()
    | .ok _ =>
      announce x d
      return .inr d

def placeSession (x : PlaceArgs) (timeout : ℤ) (entry : ℕ) (t : Thread) : M G Domain := do
  let started ← monotonic
  let keys := (x.fixed.map fun d => [d]).getD G.domains
  ensure (∃ d ∈ keys, (x.vcpus : ℚ) ≤ G.cpuCapacity d) .exceedsCpuCapacity
  ensure (∃ d ∈ keys,
    x.memoryMib * mib + (G.coord (G.coordinator d)).operationHeadroom ≤ (G.coord (G.coordinator d)).budget)
    .exceedsMemoryBudget
  Code.forever (S := sig G) (fun _ => placementRound x keys started timeout entry t) ()

def throughGate (x : PlaceArgs) (entry : ℕ) (t : Thread) : M G Domain := do
  let gateStarted ← monotonic
  let passed ← Code.down (S := sig G) (x.fixed : Gate)
  ensure passed (.arbitrationTimeout x.session)
  Code.tryFinally (S := sig G) (do
    let now ← monotonic
    placeSession x (max 0 (x.timeout - (now - gateStarted))) entry t) (Code.up (S := sig G) (x.fixed : Gate))

def placementAcquire (x : PlaceArgs) (entry : ℕ) (t : Thread) : M G Domain := do
  withCondition (perform (.startWaiting t x.session))
  let outcome ← Code.attempt (S := sig G) (throughGate x entry t)
  withCondition (perform (.stopWaiting x.session (match outcome with | .ok _ => false | .error _ => true)))
  Code.result (S := sig G) outcome

end Placement

inductive Call
  | acquire (c : CoordId) (a : AcquireArgs)
  | acquireCapacity (c : CoordId) (session : Session) (amountMib : ℕ) (timeout : ℤ)
  | release (c : CoordId) (session : Session) (amountMib : ℕ) (waitClass : WaitClass) (totalMib : Option ℕ)
  | releaseCapacity (c : CoordId) (session : Session) (amountMib : ℕ)
  | unregister (c : CoordId) (session : Session)
  | register (c : CoordId) (session : Session)
  | setBlocked (c : CoordId) (blocked : Bool)
  | beginToolAdmission (c : CoordId) (x : ToolArgs)
  | materialize (c : CoordId) (session : Session) (amountMib : ℕ) (timeout : ℤ)
  | restore (c : CoordId) (session : Session) (amountMib : ℕ) (timeout : ℤ)
  | evictOne (c : CoordId) (exclude : Option Session)
  | reclaim (c : CoordId) (failed : Bool)
  | place (x : PlaceArgs)
  | releasePlacement (session : Session)

/-- `depth` is how often the caller owns the condition when it calls. -/
structure Invocation where
  depth : ℕ := 0
  call : Call

def Call.body (t : Thread) (depth : ℕ) : Call → M G Unit
  | acquire c a => do let _ ← Policy.acquire c a depth t
  | acquireCapacity c session amountMib timeout => do let _ ← Policy.acquireCapacity c session amountMib timeout depth t
  | release c session amountMib waitClass totalMib => releaseCall c session amountMib waitClass totalMib
  | releaseCapacity c session amountMib => withCondition (perform (.releaseCapacity c session (amountMib * mib : ℕ)))
  | unregister c session => withCondition (perform (.unregister c session))
  | register c session => withCondition do
      let now ← monotonic
      perform (.register c session now)
  | setBlocked c blocked => withCondition (perform (.setBlocked c blocked))
  | beginToolAdmission c x => do let _ ← Policy.beginToolAdmission c x depth t
  | materialize c session amountMib timeout => do let _ ← Policy.materialize c session amountMib timeout depth t
  | restore c session amountMib timeout => do let _ ← Policy.restore c session amountMib timeout depth t
  | evictOne c exclude => do let _ ← evictOneForWatermark c depth exclude
  | reclaim c failed => reclaimThread c failed
  | place x => do let _ ← placementAcquire x depth t
  | releasePlacement session => withCondition (perform (.releasePlacement session))

def Invocation.code (G : Plant) (t : Thread) (i : Invocation) : Prog (sig G) Unit :=
  (Code.nested (S := sig G) ({} : Window) i.depth do
    let _ ← Code.attempt (S := sig G) (i.call.body t i.depth)
    query (.returned i.depth)).run.bind fun _ => .ret ()

def gates (G : Plant) : Gate → ℕ
  | some _ => 1
  | none => max 1 G.domains.length

def admission (G : Plant) (init : World → Prop) :
    Transition.System (Config (sig G)) ((Thread × Move (sig G) Invocation) × Event (sig G) Invocation) :=
  Monitor.system (Invocation.code G) init (gates G)

end ClawBox.Policy
