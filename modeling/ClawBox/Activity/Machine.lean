import ClawBox.Policy.Coordinator
import ClawBox.Lib.Transition

namespace ClawBox.Activity

open Admission Policy Transition
open Monitor (Thread)

abbrev ExecutionId := ℕ

structure Plan where
  restoredTool : Bool
  smallBypass : Bool
  earlyActive : Bool
  deriving DecidableEq

def Plan.make (resident smallBypass watermark fitsBelowLow : Bool) : Plan :=
  let fastLocal := smallBypass || (resident && watermark && fitsBelowLow)
  ⟨!resident, smallBypass, !resident || (watermark && !fastLocal)⟩

inductive Stage
  -- in `pending_admissions`, at the dependency gate or at `wait_lock`
  | queued
  | prepare
  | markActive (p : Plan)
  | restore (p : Plan)
  | route (p : Plan)
  -- `wait_lock` is released from here on
  | begin (p : Plan)
  | acquire (p : Plan)
  -- `acquire` raised, and `set_tool_active(False)` comes next
  | clear
  | reenter (p : Plan) (ok : Bool)
  -- `wait_lock` is held again
  | admitted
  | failed
  deriving DecidableEq

inductive Task
  | admission (x : Session) (e : ExecutionId) (stage : Stage)
  -- a failed admission that left `pending_admissions` and still holds `wait_lock`
  | rollback (x : Session)
  -- a completion after its pop
  | popped (x : Session)
  -- a completion or an abandon that takes both locks next
  | idle (x : Session)
  -- inside `set_tool_active` with both locks
  | settle (x : Session) (active : Bool)
  | eviction (x : Session)
  | memoryReturn (x : Session)
  deriving DecidableEq

structure Desk where
  pendingAdmissions : PySet ExecutionId := ∅
  activeReservations : PySet ExecutionId := ∅
  waitLock : Option Thread := none
  reservationLock : Option Thread := none

def Desk.busy (d : Desk) : Bool := !d.activeReservations.entries.isEmpty || !d.pendingAdmissions.entries.isEmpty

structure State where
  sessions : PyDict Session SessionState := ∅
  resident : Session → Bool := fun _ => true
  desks : Session → Desk := fun _ => {}
  tasks : PyDict Thread Task := ∅

inductive Action
  | admitTool (x : Session) (e : ExecutionId)
  | gateFails
  | enter
  | plan (smallBypass watermark fitsBelowLow : Bool)
  | mark (now : ℤ)
  | restored
  -- any other step under `wait_lock` that raises
  | fails
  | release
  | snapshotFails
  | acquired (now : ℤ) (ok : Bool)
  | clear (now : ℤ)
  | reenter
  | publish (claimRaises : Bool)
  | discard
  | lock
  | settle (now : ℤ)
  | complete (x : Session) (e : ExecutionId) (raises : Bool)
  | idleCheck
  | abandon (x : Session) (e : ExecutionId) (raises : Bool)
  | beginModelWait (x : Session) (waitId : ℕ) (now : ℤ)
  | completeModelWait (x : Session) (waitId : ℕ)
  | claimVictim (exclude : Option Session)
  | checkpoint
  | releaseVictim (capacitySkipped : Bool)
  | claimMemoryReturn (x : Session) (toolClaim : Bool)
  | releaseMemoryReturn
  deriving DecidableEq

namespace State

def changeSession (s : State) (x : Session) (f : SessionState → SessionState) : State :=
  match s.sessions.get? x with
  | none => s
  | some st => { s with sessions := s.sessions.set x (f st) }

def changeDesk (s : State) (x : Session) (f : Desk → Desk) : State :=
  { s with desks := Function.update s.desks x (f (s.desks x)) }

def setTask (s : State) (i : Thread) (k : Task) : State := { s with tasks := s.tasks.set i k }

def finish (s : State) (i : Thread) : State := { s with tasks := s.tasks.pop i }

def evicting (s : State) (x : Session) : Bool := ((s.sessions.get? x).map (·.evictionInProgress)).getD false

def active (now : ℤ) (b : Bool) (st : SessionState) : SessionState :=
  { st with toolActive := b, evictionEligible := !b, lastUsed := now }

def setToolActive (s : State) (x : Session) (now : ℤ) (b : Bool) : State := s.changeSession x (active now b)

def admitting (s : State) (x : Session) (e : ExecutionId) : Bool :=
  s.tasks.values.any fun k =>
    match k with
    | .admission y f _ => y = x && f = e
    | _ => false

def free (l : Option Thread) : Bool := l.isNone

def admission (s : State) (i : Thread) (x : Session) (e : ExecutionId) : Stage → Action → Option State
  | .queued, .gateFails =>
    if free (s.desks x).reservationLock then
      some ((s.changeDesk x fun d => { d with pendingAdmissions := d.pendingAdmissions.discard e }).finish i)
    else none
  | .queued, .enter =>
    if free (s.desks x).waitLock then
      some ((s.changeDesk x fun d => { d with waitLock := some i }).setTask i (.admission x e .prepare))
    else none
  | .prepare, .plan smallBypass watermark fitsBelowLow =>
    let p := Plan.make (s.resident x) smallBypass watermark fitsBelowLow
    some (s.setTask i (.admission x e (if p.earlyActive then .markActive p else .route p)))
  | .markActive p, .mark now =>
    if s.evicting x then none
    else some ((s.setToolActive x now true).setTask i
      (.admission x e (if p.restoredTool then .restore p else .route p)))
  | .restore p, .restored =>
    some ({ s with resident := Function.update s.resident x true }.setTask i (.admission x e (.route p)))
  | .restore _, .fails | .route _, .fails | .prepare, .fails | .admitted, .fails =>
    some (s.setTask i (.admission x e .failed))
  | .route p, .release =>
    some ((s.changeDesk x fun d => { d with waitLock := none }).setTask i
      (.admission x e (if p.earlyActive then (if p.smallBypass then .reenter p true else .acquire p) else .begin p)))
  | .begin p, .snapshotFails =>
    if p.smallBypass then none else some (s.setTask i (.admission x e (.reenter p false)))
  | .begin p, .mark now =>
    if s.evicting x then none
    else some ((s.setToolActive x now true).setTask i
      (.admission x e (if p.smallBypass then .reenter p true else .acquire p)))
  | .acquire p, .acquired now ok =>
    if ok then some (s.setTask i (.admission x e (.reenter p true)))
    else if p.earlyActive then some (s.setTask i (.admission x e .clear))
    else some ((s.setToolActive x now false).setTask i (.admission x e (.reenter p false)))
  | .acquire p, .snapshotFails =>
    if p.earlyActive then some (s.setTask i (.admission x e (.reenter p false))) else none
  | .clear, .clear now =>
    some ((s.setToolActive x now false).setTask i (.admission x e (.reenter ⟨false, false, true⟩ false)))
  | .reenter _ ok, .reenter =>
    if free (s.desks x).waitLock then
      some ((s.changeDesk x fun d => { d with waitLock := some i }).setTask i
        (.admission x e (if ok && s.resident x then .admitted else .failed)))
    else none
  | .admitted, .publish claimRaises =>
    if free (s.desks x).reservationLock then
      let s := s.changeDesk x fun d =>
        { d with
          pendingAdmissions := d.pendingAdmissions.discard e
          activeReservations := d.activeReservations.add e }
      if claimRaises then some (s.setTask i (.admission x e .failed))
      else some ((s.changeDesk x fun d => { d with waitLock := none }).finish i)
    else none
  | .failed, .discard =>
    if free (s.desks x).reservationLock then
      some ((s.changeDesk x fun d => { d with pendingAdmissions := d.pendingAdmissions.discard e }).setTask i
        (.rollback x))
    else none
  | _, _ => none

def pop (s : State) (x : Session) (e : ExecutionId) : Option State :=
  if free (s.desks x).reservationLock ∧ ((s.desks x).activeReservations.get? e).isSome then
    some (s.changeDesk x fun d => { d with activeReservations := d.activeReservations.discard e })
  else none

def claim (st : SessionState) : SessionState := { st with evictionInProgress := true }

def start (conf : Conf) (s : State) (i : Thread) : Action → Option State
  | .admitTool x e =>
    if free (s.desks x).reservationLock ∧ (s.sessions.get? x).isSome ∧ ¬ s.admitting x e then
      some ((s.changeDesk x fun d => { d with pendingAdmissions := d.pendingAdmissions.add e }).setTask i
        (.admission x e .queued))
    else none
  | .complete x e raises => (s.pop x e).map fun t => if raises then t else t.setTask i (.popped x)
  | .abandon x e raises => (s.pop x e).map fun t => if raises then t else t.setTask i (.idle x)
  | .beginModelWait x waitId now => some (s.changeSession x fun st =>
      { st with waitId := some waitId, responseReady := false, evictionEligible := true, lastUsed := now })
  | .completeModelWait x waitId => some (s.changeSession x fun st =>
      if st.waitId = some waitId then { st with responseReady := true, evictionEligible := false } else st)
  | .claimVictim exclude =>
    match selectVictim conf { sessions := s.sessions } (s.sessions.keys.filter fun x => s.resident x) exclude with
    | none => some s
    | some x => some ((s.changeSession x claim).setTask i (.eviction x))
  | .claimMemoryReturn x toolClaim =>
    match s.sessions.get? x with
    | none => some s
    | some st =>
      if st.toolActive || st.evictionInProgress || toolClaim then some s
      else some ((s.changeSession x claim).setTask i (.memoryReturn x))
  | _ => none

def lockBoth (s : State) (i : Thread) (x : Session) : State :=
  (s.changeDesk x fun d => { d with waitLock := some i, reservationLock := some i }).setTask i
    (.settle x (s.desks x).busy)

def step (s : State) (i : Thread) : Task → Action → Option State
  | .admission x e stage, a => s.admission i x e stage a
  | .rollback x, .lock => if free (s.desks x).reservationLock then some (s.lockBoth i x) else none
  | .popped x, .idleCheck =>
    if free (s.desks x).reservationLock then
      some (if (s.desks x).busy then s.finish i else s.setTask i (.idle x))
    else none
  | .idle x, .lock =>
    if free (s.desks x).waitLock ∧ free (s.desks x).reservationLock then some (s.lockBoth i x) else none
  | .settle x b, .settle now =>
    if b && s.evicting x then none
    else some (((s.setToolActive x now b).changeDesk x fun d =>
      { d with waitLock := none, reservationLock := none }).finish i)
  | .eviction x, .checkpoint => some { s with resident := Function.update s.resident x false }
  | .eviction x, .releaseVictim skipped => some ((s.changeSession x fun st =>
      { st with
        evictionInProgress := false
        evictionEligible := skipped && !st.toolActive && !st.responseReady }).finish i)
  | .memoryReturn x, .releaseMemoryReturn =>
    some ((s.changeSession x fun st => { st with evictionInProgress := false }).finish i)
  | _, _ => none

-- A step is a section under `reservation_lock` or the condition of the coordinator; `wait_lock` is held over several
-- of them.
def next (conf : Conf) (s : State) : Thread × Action → Option (State × Unit)
  | (i, a) =>
    (match s.tasks.get? i with
    | none => start conf s i a
    | some k => s.step i k a).map fun t => (t, ())

def Start (s : State) : Prop :=
  ∃ sessions resident, s = { sessions := sessions, resident := resident } ∧
    ∀ x st, sessions.get? x = some st → st.toolActive = false ∧ st.evictionInProgress = false

def system (conf : Conf) : System State ((Thread × Action) × Unit) := .ofNext Start (next conf)

end State

end ClawBox.Activity
