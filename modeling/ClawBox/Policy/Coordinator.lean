import ClawBox.Admission.Observation
import ClawBox.Lib.MonitorLogic
import Mathlib.Algebra.Order.Field.Rat

namespace ClawBox.Policy

open Admission Monitor

abbrev CoordId := ℕ
abbrev Domain := ℕ

def mib : ℕ := 1024 * 1024

inductive Reason
  | configuredMemoryBudget
  | emergencyFreeMemory
  | globalMemoryBudget
  | sustainedMemoryCongestion
  | hostFreeFloor
  | residentCapacityBudget
  | executionAlreadyInflight
  | localHighHysteresis
  | fifoPredecessor
  deriving DecidableEq

inductive Error
  | ledger (e : LedgerError)
  | admissionTimeout (session : Session)
  | headBlocked (session : Session)
  | hostFloor
  | arbitrationTimeout (session : Session)
  | placementTimeout (session : Session)
  | osManagedReservation
  | sampleFailed
  | checkFailed
  | cacheReclaimFailed
  | reservationUnderflow (session : Session)
  | missingKey
  | reliefFailed
  | operationFailed (conflict : Bool)
  | restoreRejected
  | duplicatePlacement (session : Session)
  | exceedsCpuCapacity
  | exceedsMemoryBudget
  | emitFailed
  deriving DecidableEq

def Error.isTimeout : Error → Bool
  | admissionTimeout _ => true
  | headBlocked _ => true
  | hostFloor => true
  | arbitrationTimeout _ => true
  | placementTimeout _ => true
  | _ => false

-- Amounts are bytes, times are milliseconds.
structure Conf where
  budget : ℕ
  progressBudget : ℕ
  emergencyFree : ℕ := 0
  operationHeadroom : ℕ := 0
  startupHeadroom : ℕ := 0
  scope : Scope := 0
  residentCapacityAccounting : Bool := false
  osManagedLifecycle : Bool := false
  reclaimCache : Bool := false
  pressureRelief : Bool := false
  runtimeSnapshot : Bool := false
  residentReclamation : Bool := false
  waitAwareEviction : Bool := false
  budget_le : budget ≤ progressBudget := by decide

structure Plant where
  coord : CoordId → Conf
  -- `exit_ratio`
  exitNum : ℕ := 4
  exitDen : ℕ := 5
  domains : List Domain := []
  coordinator : Domain → CoordId := id
  cpuCapacity : Domain → ℚ := fun _ => 0

/-- A ticket is one object; its serial number tells the tickets of a thread apart. -/
structure Ticket where
  thread : Thread
  serial : ℕ
  deriving DecidableEq

structure AdmissionRequest where
  session : Session
  amount : ℕ
  waitClass : WaitClass
  capacityClaim : Bool
  total : ℕ
  deriving DecidableEq

-- how the thread of a ticket last left the condition: it polls, or it sleeps until it is signalled
inductive Sleep
  | awake
  | polling
  | asleep
  deriving DecidableEq

structure WaiterEvent where
  isSet : Bool := false
  sleep : Sleep := .awake
  deriving DecidableEq

structure SessionState where
  toolActive : Bool := false
  evictionEligible : Bool := false
  evictionInProgress : Bool := false
  lastUsed : ℤ := 0
  hasRuntime : Bool := false
  waitId : Option ℕ := none
  responseReady : Bool := false
  deriving DecidableEq

structure Coordinator where
  reservations : PyDict Session ℤ := ∅
  capacityClaims : PyDict Session ℤ := ∅
  residentCapacityClaims : PyDict Session ℤ := ∅
  waiters : List Ticket := []
  waiterRequests : PyDict Ticket AdmissionRequest := ∅
  waiterBlockers : PyDict Ticket (List Reason) := ∅
  waiterEvents : PyDict Ticket WaiterEvent := ∅
  progressWaiters : PySet Ticket := ∅
  sessions : PyDict Session SessionState := ∅
  -- the sampler for the `create` and `restore` claims of a session
  memorySamples : PyDict Session Sampler := ∅
  newSessionAdmissionBlocked : Bool := false
  cacheReclaimError : Bool := false
  cacheReclaimRunning : Bool := false
  lastCacheReclaim : Option ℤ := none

structure Placed where
  domain : Domain
  vcpus : ℕ
  template : Option ℕ
  deriving DecidableEq

structure Feedback where
  sampledAt : ℤ
  used : ℤ
  pending : ℤ
  reasons : List Reason
  deriving DecidableEq

structure World where
  demand : DemandLedger
  lastSevereAt : Option ℤ := none
  coords : CoordId → Coordinator := fun _ => {}
  nextSerial : ℕ := 0
  placed : PyDict Session Placed := ∅
  -- `waiting`, with the thread that put the session there
  waiting : PyDict Session Thread := ∅
  memoryFeedback : PyDict (Domain × ℕ) Feedback := ∅

namespace World

def setCoord (s : World) (c : CoordId) (C : Coordinator) : World := { s with coords := Function.update s.coords c C }

def capacity (s : World) (c : CoordId) : ℤ := (s.coords c).capacityClaims.sum fun _ v => v

def offered (s : World) (d : Domain) : ℤ := s.placed.sum fun _ p => if p.domain = d then (p.vcpus : ℤ) else 0

end World

abbrev Step := Raising World Error

open Raising

def onLedger (x : LedgerM Unit) : Step Unit := fun s =>
  match x.run s.demand with
  | (.ok a, L) => (.ok a, { s with demand := L })
  | (.error e, L) => (.error (.ledger e), { s with demand := L })

def onCoord (c : CoordId) (f : Coordinator → Coordinator) : Step Unit := modify fun s => s.setCoord c (f (s.coords c))

def AdmissionRequest.inflight (r : AdmissionRequest) (claims : PyDict Key Claim) : Bool :=
  (claims.get? (r.session, r.waitClass)).isSome && r.waitClass != .toolAdmission

def progressWakeBatch : ℕ := 8

def WaiterEvent.signal (e : WaiterEvent) : WaiterEvent := { e with isSet := true }

def signalLoop (claims : PyDict Key Claim) (C : Coordinator) :
    List Ticket → Bool → ℕ → PyDict Ticket WaiterEvent → PyDict Ticket WaiterEvent
  | [], _, _, events => events
  | k :: ks, first, progress, events =>
    match C.waiterRequests.get? k, events.get? k with
    | some r, some e =>
      if r.inflight claims then signalLoop claims C ks first progress events
      else
        let isProgress := (C.progressWaiters.get? k).isSome
        let progress := if isProgress then progress + 1 else progress
        let wake := first || (isProgress && progress ≤ progressWakeBatch)
        signalLoop claims C ks false progress (if wake then events.set k e.signal else events)
    | _, _ => signalLoop claims C ks first progress events

def signalAdmissionWaiters (c : CoordId) : Step Unit := modify fun s =>
  let C := s.coords c
  s.setCoord c { C with waiterEvents := signalLoop s.demand.claims C C.waiters true 0 C.waiterEvents }

def Coordinator.enqueued (C : Coordinator) (k : Ticket) (r : AdmissionRequest) : Coordinator :=
  { C with
    waiters := C.waiters ++ [k]
    waiterRequests := C.waiterRequests.set k r
    waiterEvents := C.waiterEvents.set k {}
    progressWaiters :=
      if r.waitClass ≠ .create ∧ ¬ r.capacityClaim then C.progressWaiters.add k else C.progressWaiters }

def enqueue (t : Thread) (c : CoordId) (r : AdmissionRequest) : Step Ticket := do
  let k : Ticket := ⟨t, (← get).nextSerial⟩
  modify fun s => { s with nextSerial := s.nextSerial + 1 }
  onCoord c (·.enqueued k r)
  pure k

def Coordinator.drop (C : Coordinator) (k : Ticket) : Coordinator :=
  { C with
    waiters := C.waiters.erase k
    waiterRequests := C.waiterRequests.pop k
    waiterBlockers := C.waiterBlockers.pop k
    waiterEvents := C.waiterEvents.pop k
    progressWaiters := C.progressWaiters.discard k }

def abandon (c : CoordId) (k : Ticket) : Step Unit := do
  onCoord c (·.drop k)
  signalAdmissionWaiters c

def setBlockers (c : CoordId) (k : Ticket) (reasons : List Reason) : Step Unit :=
  onCoord c fun C => { C with waiterBlockers := C.waiterBlockers.set k reasons }

def clearEvent (c : CoordId) (k : Ticket) (polls : Bool) : Step Unit := do
  match ((← get).coords c).waiterEvents.get? k with
  | none => raise .missingKey
  | some _ => onCoord c fun C => { C with
      waiterEvents := C.waiterEvents.set k ⟨false, if polls then .polling else .asleep⟩ }

def wakeUp (c : CoordId) (k : Ticket) : Step Unit :=
  onCoord c fun C =>
    match C.waiterEvents.get? k with
    | none => C
    | some e => { C with waiterEvents := C.waiterEvents.set k { e with sleep := .awake } }

def startReclaim (c : CoordId) : Step Unit := onCoord c fun C => { C with cacheReclaimRunning := true }

def finishReclaim (c : CoordId) (failed : Bool) (now : ℤ) : Step Unit :=
  onCoord c fun C => { C with
    cacheReclaimError := C.cacheReclaimError || failed
    cacheReclaimRunning := false
    lastCacheReclaim := some now }

def Coordinator.reserve (C : Coordinator) (r : AdmissionRequest) : Coordinator :=
  if r.capacityClaim then
    { C with capacityClaims :=
      C.capacityClaims.set r.session ((C.capacityClaims.get? r.session).getD 0 + r.amount) }
  else
    { C with reservations :=
      C.reservations.set r.session ((C.reservations.get? r.session).getD 0 + r.amount) }

def commit (conf : Conf) (c : CoordId) (k : Ticket) (r : AdmissionRequest) (reading : Reading) : Step Unit := do
  if k ∉ ((← get).coords c).waiters then raise .missingKey
  onCoord c (·.drop k)
  let s ← get
  let key : Key := (r.session, r.waitClass)
  if r.waitClass = .toolAdmission ∧ (s.demand.claims.get? key).isSome then
    onLedger (DemandLedger.extend key r.total r.amount)
  else
    let sample := if r.waitClass = .toolAdmission then none else (s.coords c).memorySamples.get? r.session
    onLedger (DemandLedger.add key conf.scope r.total r.amount sample reading)
  if conf.residentCapacityAccounting ∧ r.waitClass = .create then
    onCoord c fun C => { C with residentCapacityClaims := C.residentCapacityClaims.set r.session r.amount }
  onCoord c (·.reserve r)
  signalAdmissionWaiters c

def releaseFrom (c : CoordId) (field : Coordinator → PyDict Session ℤ)
    (update : Coordinator → PyDict Session ℤ → Coordinator) (session : Session) (amount : ℤ) : Step Unit := do
  let current := ((field ((← get).coords c)).get? session).getD 0
  if amount > current then raise (.reservationUnderflow session)
  if amount = current then onCoord c fun C => update C ((field C).pop session)
  else onCoord c fun C => update C ((field C).set session (current - amount))
  signalAdmissionWaiters c

def releaseReservation (c : CoordId) : Session → ℤ → Step Unit :=
  releaseFrom c Coordinator.reservations fun C d => { C with reservations := d }

def releaseCapacityClaim (c : CoordId) : Session → ℤ → Step Unit :=
  releaseFrom c Coordinator.capacityClaims fun C d => { C with capacityClaims := d }

def release (c : CoordId) (session : Session) (amount : ℤ) (waitClass : WaitClass) (total : ℤ) : Step Unit := do
  releaseReservation c session amount
  if waitClass = .toolAdmission then onLedger (DemandLedger.releaseAmount (session, waitClass) total amount)
  else onLedger (DemandLedger.release (session, waitClass))
  signalAdmissionWaiters c

def releaseResident (c : CoordId) (session : Session) : Step Unit := do
  onCoord c fun C => { C with residentCapacityClaims := C.residentCapacityClaims.pop session }
  signalAdmissionWaiters c

def releaseKeys : List Key → Step Unit
  | [] => pure ()
  | key :: keys => do
    onLedger (DemandLedger.release key)
    releaseKeys keys

def unregister (c : CoordId) (session : Session) : Step Unit := do
  onCoord c fun C => { C with sessions := C.sessions.pop session, memorySamples := C.memorySamples.pop session }
  releaseKeys ((← get).demand.claims.keys.filter (·.1 = session))
  onCoord c fun C => { C with
    reservations := C.reservations.pop session
    capacityClaims := C.capacityClaims.pop session
    residentCapacityClaims := C.residentCapacityClaims.pop session }
  signalAdmissionWaiters c

def setNewSessionAdmissionBlocked (c : CoordId) (blocked : Bool) : Step Unit := do
  onCoord c fun C => { C with newSessionAdmissionBlocked := blocked }
  signalAdmissionWaiters c

def register (c : CoordId) (session : Session) (now : ℤ) : Step Unit :=
  onCoord c fun C => { C with sessions := C.sessions.set session { lastUsed := now } }

def changeSession (c : CoordId) (session : Session) (f : SessionState → SessionState) : Step Unit :=
  onCoord c fun C =>
    match C.sessions.get? session with
    | none => C
    | some x => { C with sessions := C.sessions.set session (f x) }

def setActive (c : CoordId) (session : Session) (active : Bool) (now : ℤ) : Step Unit :=
  changeSession c session fun x => { x with toolActive := active, evictionEligible := !active, lastUsed := now }

def selectVictim (conf : Conf) (C : Coordinator) (resident : List Session) (exclude : Option Session) :
    Option Session :=
  if conf.residentReclamation then none
  else
    let candidates := C.sessions.entries.filter fun e => some e.1 ≠ exclude ∧ e.2.evictionEligible ∧
      ¬ e.2.evictionInProgress ∧ ¬ e.2.toolActive ∧ e.1 ∈ resident
    let candidates := if conf.waitAwareEviction then
        candidates.filter fun e => e.2.waitId.isSome ∧ ¬ e.2.responseReady
      else candidates
    (candidates.minOn? fun e => e.2.lastUsed).map Prod.fst

def claimVictim (conf : Conf) (c : CoordId) (resident : List Session) (exclude : Option Session) :
    Step (Option Session) := do
  match selectVictim conf ((← get).coords c) resident exclude with
  | none => pure none
  | some v => do
    changeSession c v fun x => { x with evictionInProgress := true }
    pure (some v)

def releaseVictim (c : CoordId) (session : Session) (skipped : Bool) : Step Unit := do
  changeSession c session fun x => { x with
    evictionInProgress := false
    evictionEligible := skipped && !x.toolActive && !x.responseReady }
  signalAdmissionWaiters c

def markSevere (now : ℤ) : Step Unit := modify fun s =>
  { s with demand := { s.demand with congested := true }, lastSevereAt := some now }

def clearCongested : Step Unit := modify fun s => { s with demand := { s.demand with congested := false } }

section Placement

def startWaiting (t : Thread) (session : Session) : Step Unit := do
  let s ← get
  if (s.placed.get? session).isSome ∨ (s.waiting.get? session).isSome then raise (.duplicatePlacement session)
  modify fun s => { s with waiting := s.waiting.set session t }

def stopWaiting (session : Session) : Step Unit := do
  if ((← get).waiting.get? session).isNone then raise .missingKey
  modify fun s => { s with waiting := s.waiting.pop session }

def place (session : Session) (p : Placed) : Step Unit := modify fun s => { s with placed := s.placed.set session p }

def unplace (session : Session) : Step Unit := do
  if ((← get).placed.get? session).isNone then raise .missingKey
  modify fun s => { s with placed := s.placed.pop session }

def storeFeedback (d : Domain) (memoryMib : ℕ) (f : Feedback) : Step Unit :=
  modify fun s => { s with memoryFeedback := s.memoryFeedback.set (d, memoryMib) f }

def clearFeedback : Step Unit := modify fun s => { s with memoryFeedback := ∅ }

def releasePlacement (session : Session) : Step Unit :=
  modify fun s => { s with placed := s.placed.pop session, memoryFeedback := ∅ }

end Placement

end ClawBox.Policy
