import ClawBox.Lib.PyDict
import ClawBox.Lib.Transition

namespace ClawBox.Supervisor

open Transition

inductive RunStatus
  | succeeded
  | failed
  | timedOut
  | rejected
  | cancelled
  deriving DecidableEq

inductive FailureCategory
  | workload
  | agent
  | inference
  | tool
  | sandbox
  | admission
  | capacity
  | oom
  | timeout
  | validation
  | infrastructure
  deriving DecidableEq

structure Correctness where
  cleanupVerified : Bool := false
  nativeToolTelemetryLossTotal : ℕ := 0
  sessionFailures : Bool := false
  armInterrupted : Bool := false
  infrastructureFailure : Bool := false
  deriving DecidableEq

structure Result where
  attemptId : ℕ
  armId : ℕ
  specDigest : ℕ
  status : RunStatus
  failureCategory : Option FailureCategory := none
  correctness : Correctness := {}
  deriving DecidableEq

def isTrialOutcome (r : Result) : Bool :=
  if !r.correctness.cleanupVerified then false
  else if r.status = .succeeded then r.correctness.nativeToolTelemetryLossTotal = 0
  else if r.failureCategory = some .infrastructure then false
  else if r.failureCategory = some .oom ∨ r.failureCategory = some .timeout ∨ r.failureCategory = some .admission then
    true
  else r.correctness.sessionFailures && !(r.correctness.armInterrupted || r.correctness.infrastructureFailure)

/-- `task_uid`, the hash of the attempt and the arm. -/
abbrev TaskUid := ℕ × ℕ

inductive ArmStatus
  | pending
  | running
  | interrupted
  | ended (status : RunStatus)
  | notRun
  deriving DecidableEq

structure ArmState where
  status : ArmStatus := .pending
  attemptId : Option ℕ := none
  taskUid : Option TaskUid := none
  artifactRoot : Option ℕ := none
  cleanupVerified : Bool := false
  -- the identity of a process: a worker is named by the artifact root that it alone was started in
  worker : Option ℕ := none
  deriving DecidableEq

structure RunState where
  attemptId : ℕ
  arms : PyDict ℕ ArmState := ∅
  deriving DecidableEq

structure Worker where
  root : ℕ
  task : TaskUid
  deriving DecidableEq

abbrev Worker.armId (w : Worker) : ℕ := w.task.2

structure Config where
  arms : List ℕ
  specDigest : ℕ

inductive Phase
  | recovering (left failures : List ℕ)
  | reclaiming (armId : ℕ) (left failures : List ℕ)
  | recovered (failures : List ℕ)
  | initialized
  | choosing
  | preparing
  | launching
  | launched
  | identified
  | waiting
  -- the handler of an exception raised while the worker was running
  | stopping (keyboard : Bool)
  | stopped
  | cleaning (timedOut : Bool)
  | settling (timedOut cleaned : Bool)
  | archiving (result : Result)
  | storing (result : Result)
  | marking (result : Result)
  | recording (result : Result)
  | finishing
  deriving DecidableEq

structure Invocation where
  attemptId : ℕ
  state : RunState
  phase : Phase
  todo : List ℕ := []
  armId : ℕ := 0
  artifactRoot : ℕ := 0
  results : List Result := []
  deriving DecidableEq

/-- The files of the run, its processes, and two records that only the statements read: the workers whose resources
were not cleaned after their end, and all results stored. -/
structure State where
  created : Bool := false
  runState : Option RunState := none
  results : PyDict ℕ Result := ∅
  markers : PyDict ℕ ℕ := ∅
  archive : PyDict (ℕ × ℕ) Result := ∅
  workers : List Worker := []
  minted : ℕ := 0
  supervisor : Option Invocation := none
  uncleaned : List Worker := []
  history : List Result := []

def setdefaultArm (d : PyDict ℕ ArmState) (a : ℕ) : PyDict ℕ ArmState :=
  if (d.get? a).isSome then d else d.set a {}

def setdefaultArms (arms : List ℕ) (d : PyDict ℕ ArmState) : PyDict ℕ ArmState := arms.foldl setdefaultArm d

def RunState.updateArm (st : RunState) (a : ℕ) (f : ArmState → ArmState) : RunState :=
  match st.arms.get? a with
  | none => st
  | some x => { st with arms := st.arms.set a (f x) }

def completedResult (cfg : Config) (s : State) (attempt a : ℕ) : Option Result :=
  match s.results.get? a, s.markers.get? a with
  | some r, some marker =>
    if isTrialOutcome r ∧ r.attemptId = attempt ∧ r.armId = a ∧ r.specDigest = cfg.specDigest ∧
      marker = cfg.specDigest ∧ r.correctness.cleanupVerified = true then some r
    else none
  | _, _ => none

def syntheticResult (cfg : Config) (attempt a : ℕ) (status : RunStatus) (cleaned : Bool) : Result where
  attemptId := attempt
  armId := a
  specDigest := cfg.specDigest
  status := status
  failureCategory := some (if status = .timedOut then .timeout else .infrastructure)
  correctness := { cleanupVerified := cleaned }

def handoff (cfg : Config) (a : ℕ) (candidate : Option Result) : Option Result :=
  candidate.filter fun c => c.armId = a ∧ c.specDigest = cfg.specDigest

def Result.failedFor (r : Result) (c : Correctness) : Result :=
  { r with status := .failed, failureCategory := some .infrastructure, correctness := c }

def workerResult (cfg : Config) (attempt a : ℕ) (timedOut cleaned : Bool) (candidate : Option Result)
    (badExit : Bool) : Result :=
  if timedOut then syntheticResult cfg attempt a .timedOut cleaned
  else
    match handoff cfg a candidate with
    | none => syntheticResult cfg attempt a .failed cleaned
    | some c => if badExit ∧ c.status = .succeeded then c.failedFor c.correctness else c

def settledResult (cfg : Config) (attempt a : ℕ) (timedOut cleaned : Bool) (candidate : Option Result)
    (badExit : Bool) : Result :=
  let r := workerResult cfg attempt a timedOut cleaned candidate badExit
  if cleaned then { r with correctness := { r.correctness with cleanupVerified := true } }
  else r.failedFor { r.correctness with cleanupVerified := false }

inductive Act
  | run (attempt : ℕ)
  | resume (attempt : ℕ)
  | proceed
  -- how `_cleanup` ends
  | cleanup (ok : Bool)
  -- the result file and the exit status of the worker
  | settle (candidate : Option Result) (badExit : Bool)
  | timeout
  | interrupt (keyboard : Bool)
  -- an exception anywhere in the body of `run`; its handler may write the state or fail to
  | leave (written : Bool)
  | kill
  | workerExits (root : ℕ)
  deriving DecidableEq

inductive Event
  | started (w : Worker)
  | completed (armId : ℕ) (result : Result)
  deriving DecidableEq

namespace State

def terminate (s : State) (root : ℕ) : State := { s with workers := s.workers.filter (·.root ≠ root) }

def write (s : State) (v : Invocation) : State := { s with runState := some v.state }

def verified (s : State) (root : ℕ) (task : TaskUid) (ok : Bool) : State :=
  if ok then { s with uncleaned := s.uncleaned.filter fun w => ¬(w.root = root ∧ w.task = task) ∨ w ∈ s.workers }
  else s

def enter (s : State) (v : Invocation) (phase : Phase) : State :=
  { s with supervisor := some { v with phase := phase } }

def writeEnter (s : State) (v : Invocation) (phase : Phase) : State := (s.write v).enter v phase

end State

def Invocation.task (v : Invocation) : TaskUid := (v.attemptId, v.armId)

def Invocation.updateArm (v : Invocation) (a : ℕ) (f : ArmState → ArmState) : Invocation :=
  { v with state := v.state.updateArm a f }

def reclaimed (ok : Bool) (x : ArmState) : ArmState :=
  { x with
    cleanupVerified := ok
    status := if ok ∧ x.status = .running then .interrupted else x.status }

def stopWorker (s : State) (x : ArmState) : State :=
  match x.worker with
  | none => s
  | some root => s.terminate root

def recoverArm (s : State) (v : Invocation) (a : ℕ) (left failures : List ℕ) : State :=
  match v.state.arms.get? a with
  | none => s.enter v (.recovering left failures)
  | some x =>
    if x.cleanupVerified then (stopWorker s x).enter v (.recovering left failures)
    else if x.taskUid.isNone ∨ x.artifactRoot.isNone then (stopWorker s x).enter v (.recovering left failures)
    else (stopWorker s x).enter v (.reclaiming a left failures)

def reclaim (s : State) (v : Invocation) (a : ℕ) (left failures : List ℕ) (ok : Bool) : State :=
  match v.state.arms.get? a with
  | none => s
  | some x =>
    match x.taskUid, x.artifactRoot with
    | some task, some root =>
      (s.verified root task ok).enter (v.updateArm a (reclaimed ok))
        (.recovering left (if ok then failures else failures ++ [a]))
    | _, _ => s

def choose (cfg : Config) (s : State) (v : Invocation) : State × Option Event :=
  match v.todo with
  | [] => (s.enter v .finishing, none)
  | a :: rest =>
    match completedResult cfg s v.attemptId a with
    | some r =>
      (s.enter { v.updateArm a (fun x => { x with status := .ended r.status }) with
          todo := rest, results := v.results ++ [r] } .choosing,
        some (.completed a r))
    | none => (s.enter { v with armId := a, todo := rest } .preparing, none)

def prepared (v : Invocation) (root : ℕ) (x : ArmState) : ArmState :=
  { x with
    status := .running
    attemptId := some v.attemptId
    taskUid := some v.task
    artifactRoot := some root
    cleanupVerified := false }

def prepare (s : State) (v : Invocation) : State :=
  match v.state.arms.get? v.armId with
  -- a `KeyError`, which the handler of `run` records
  | none => { s.write v with supervisor := none }
  | some _ =>
    { s with minted := s.minted + 1 }.writeEnter
      { v.updateArm v.armId (prepared v s.minted) with artifactRoot := s.minted } .launching

def Invocation.worker (v : Invocation) : Worker := ⟨v.artifactRoot, v.task⟩

def launch (s : State) (v : Invocation) : State :=
  { s with workers := v.worker :: s.workers, uncleaned := v.worker :: s.uncleaned }.enter v .launched

def archivePrevious (s : State) (r : Result) : State :=
  match s.results.get? r.armId with
  | none => s
  | some previous =>
    if previous.attemptId = r.attemptId then s
    else { s with archive := s.archive.set (previous.attemptId, r.armId) previous }

def mark (s : State) (r : Result) : State :=
  { s with
    markers := if isTrialOutcome r then s.markers.set r.armId r.specDigest else s.markers.pop r.armId }

def record (s : State) (v : Invocation) (r : Result) : State :=
  let v := v.updateArm v.armId fun x => { x with status := .ended r.status }
  s.writeEnter { v with results := v.results ++ [r] } (if isTrialOutcome r then .choosing else .finishing)

def notRun (x : ArmState) : ArmState := if x.status = .pending then { x with status := .notRun } else x

def finish (cfg : Config) (s : State) (v : Invocation) : State :=
  { s.write { v with state := cfg.arms.foldl (fun st a => st.updateArm a notRun) v.state } with supervisor := none }

def proceed (cfg : Config) (s : State) (v : Invocation) : Option (State × Option Event) :=
  match v.phase with
  | .recovering [] failures => some (s.enter v (.recovered failures), none)
  | .recovering (a :: left) failures => some (recoverArm s v a left failures, none)
  | .recovered failures =>
    if failures = [] then
      some ((s.write v).enter { v with state := ⟨v.attemptId, setdefaultArms cfg.arms v.state.arms⟩ } .initialized,
        none)
    else some ({ s.write v with supervisor := none }, none)
  | .initialized => some (s.writeEnter { v with todo := cfg.arms } .choosing, none)
  | .choosing => some (choose cfg s v)
  | .preparing => some (prepare s v, none)
  | .launching => some (launch s v, some (.started v.worker))
  | .launched =>
    some (s.enter (v.updateArm v.armId fun x => { x with worker := some v.artifactRoot }) .identified, none)
  | .identified => some (s.writeEnter v .waiting, none)
  | .waiting => if v.worker ∈ s.workers then none else some (s.writeEnter v (.cleaning false), none)
  | .archiving r => some ((archivePrevious s r).enter v (.storing r), none)
  | .storing r =>
    some ({ s with results := s.results.set r.armId r, history := r :: s.history }.enter v (.marking r), none)
  | .marking r => some ((mark s r).enter v (.recording r), none)
  | .recording r => some (record s v r, none)
  | .finishing => some (finish cfg s v, none)
  | _ => none

def stopStatus (keyboard : Bool) : ArmStatus := .ended (if keyboard then .cancelled else .failed)

def cleanup (s : State) (v : Invocation) (ok : Bool) : Option State :=
  match v.phase with
  | .reclaiming a left failures => some (reclaim s v a left failures ok)
  | .stopping keyboard =>
    some ((s.verified v.artifactRoot v.task ok).enter
      (v.updateArm v.armId fun x => { x with cleanupVerified := ok, status := stopStatus keyboard }) .stopped)
  | .cleaning timedOut =>
    some ((s.verified v.artifactRoot v.task ok).enter
      (v.updateArm v.armId fun x => { x with cleanupVerified := ok }) (.settling timedOut ok))
  | _ => none

def Phase.handled : Phase → Bool
  | .recovering _ _ | .reclaiming _ _ _ | .recovered _ | .initialized | .finishing => false
  | _ => true

-- A supervisor may be killed between any two writes, or leave by an exception; its worker goes on without it.
def next (cfg : Config) (s : State) : Act → Option (State × Option Event)
  | .run attempt =>
    if s.created ∨ s.supervisor.isSome then none
    else
      some ({ s with
        created := true
        supervisor := some ⟨attempt, ⟨attempt, setdefaultArms cfg.arms ∅⟩, .initialized, [], 0, 0, []⟩ }, none)
  | .resume attempt =>
    match s.supervisor, s.runState with
    | none, some st =>
      some ({ s with supervisor := some ⟨attempt, st, .recovering st.arms.keys [], [], 0, 0, []⟩ }, none)
    | _, _ => none
  | .proceed => s.supervisor.bind (proceed cfg s)
  | .cleanup ok => s.supervisor.bind fun v => (cleanup s v ok).map (·, none)
  | .settle candidate badExit =>
    s.supervisor.bind fun v =>
      match v.phase with
      | .settling timedOut cleaned =>
        -- the worker stamps its result with the attempt it was started for
        if candidate.all (·.attemptId = v.attemptId) then
          some (s.enter v (.archiving (settledResult cfg v.attemptId v.armId timedOut cleaned candidate badExit)), none)
        else none
      | _ => none
  | .timeout =>
    s.supervisor.bind fun v =>
      if v.phase = .waiting then some ((s.terminate v.artifactRoot).writeEnter v (.cleaning true), none) else none
  | .interrupt keyboard =>
    s.supervisor.bind fun v =>
      if v.phase = .waiting then some ((s.terminate v.artifactRoot).writeEnter v (.stopping keyboard), none) else none
  | .leave written =>
    s.supervisor.bind fun v =>
      if v.phase.handled then some ({ (if written then s.write v else s) with supervisor := none }, none) else none
  | .kill => s.supervisor.map fun _ => ({ s with supervisor := none }, none)
  | .workerExits root => some (s.terminate root, none)

def Start (s : State) : Prop := s = {}

def system (cfg : Config) : System State (Act × Option Event) := .ofNext Start (next cfg)

end ClawBox.Supervisor
