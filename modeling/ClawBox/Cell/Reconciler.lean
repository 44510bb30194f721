import ClawBox.Cell.Cluster

namespace ClawBox.Cell

open Remote

inductive Failure
  | api (e : ApiError)
  | refusingToAdopt
  | bridgeServiceMissing
  | noNodeAddress

abbrev Reconcile := Code api Failure

def send (r : Req) : Reconcile (Except ApiError r.Out) := Code.call (A := api) r

def request (r : Req) : Reconcile r.Out := do
  match ← send r with
  | .ok x => pure x
  | .error e => throw (.api e)

def get (r : Req) : Reconcile (Option r.Out) := do
  match ← send r with
  | .ok x => pure (some x)
  | .error .notFound => pure none
  | .error e => throw (.api e)

def ignoreNotFound (r : Req) : Reconcile Unit := do
  match ← send r with
  | .ok _ => pure ()
  | .error .notFound => pure ()
  | .error e => throw (.api e)

def adoptable (owner : Option ℕ) (expected : ℕ) : Reconcile Unit :=
  if owner ≠ some expected then throw .refusingToAdopt else pure ()

def ensure (reader creator : Req) (owner : reader.Out → Option ℕ) (expected : ℕ) : Reconcile Unit := do
  match ← get reader with
  | some existing => adoptable (owner existing) expected
  | none =>
    match ← send creator with
    | .ok _ => pure ()
    | .error .conflict => adoptable (owner (← request reader)) expected
    | .error e => throw (.api e)

def deleteJob (name : String) : Reconcile Bool := do
  ignoreNotFound (.deleteJob name)
  return (← get (.readJob name)).isNone

def deleteBridgeService (name : String) : Reconcile Bool := do
  ignoreNotFound (.deleteService name)
  return (← get (.readService name)).isNone

def cleanup (name : String) (uid : ℕ) : Reconcile Bool := do
  let jobGone ← deleteJob name
  let serviceGone ← deleteBridgeService name
  let _ ← request (.killOwnedSandboxes uid)
  if jobGone && serviceGone then
    return List.isEmpty (← request (.listOwnedSandboxes uid))
  else return false

def bridgeEndpoint (name : String) : Reconcile Unit := do
  match ← get (.readService name) with
  | none => throw .bridgeServiceMissing
  | some _ =>
    let found : Bool ← request (.readEndpoint name)
    if found then pure () else throw .noNodeAddress

def anotherWorkerActive (name : String) : Reconcile Bool := do
  let items ← request .listJobs
  return List.any items fun item => item.1 ≠ name && item.2.phase = .running

def validateTask (name : String) (spec : TaskSpec) : Except String Unit :=
  if 48 < name.length then .error "SandboxTask name must be at most 48 characters"
  else
    match ["runRef", "workerImage", "cubeApiURL", "resultHostPath", "experimentSpec"].find?
      (!spec.given.contains ·) with
    | some field => .error ("spec." ++ field ++ " is required")
    | none => if spec.experimentValid then .ok () else .error "invalid experiment"

def startWorker (name : String) (uid : ℕ) : Reconcile Unit := do
  ensure (.readConfigMap name) (.createConfigMap name uid) id uid
  ensure (.readService name) (.createService name uid) id uid
  bridgeEndpoint name
  ensure (.readJob name) (.createJob name uid) Job.owner uid

def reconcileJob (name : String) (uid : ℕ) : CellPhase → Reconcile Unit
  | .succeeded => do
    let _ ← request (.killOwnedSandboxes uid)
    let serviceGone ← deleteBridgeService name
    let left ← request (.listOwnedSandboxes uid)
    if ¬ List.isEmpty left then request (.patchStatus name .failed (some "sandbox_cleanup"))
    else if ¬ serviceGone then request (.patchStatus name .failed (some "bridge_service_cleanup"))
    else request (.patchStatus name .succeeded none)
  | .failed => do
    let _ ← request (.killOwnedSandboxes uid)
    let _ ← deleteBridgeService name
    request (.patchStatus name .failed (some "worker_job"))
  | _ => request (.patchStatus name .running none)

def waitsForSlot (name : String) (allowWorkloadStart : Bool) : Reconcile Bool :=
  if allowWorkloadStart then anotherWorkerActive name else pure true

def reconcileWorker (name : String) (uid : ℕ) (allowWorkloadStart : Bool) : Reconcile Bool := do
  match ← get (.readJob name) with
  | none =>
    if ← waitsForSlot name allowWorkloadStart then
      let _ ← request (.patchStatus name .queued none)
      return false
    else
      startWorker name uid
      let _ ← request (.patchStatus name .running none)
      return true
  | some job =>
    reconcileJob name uid (Job.phase job)
    return false

def reconcile (name : String) (task : Task) (allowWorkloadStart : Bool) : Reconcile Bool := do
  if task.deletionTimestamp then
    let clean ← cleanup name task.uid
    if clean && task.finalizers.contains FINALIZER then
      let _ ← request (.patchFinalizers name (task.finalizers.filter (· ≠ FINALIZER)))
    return false
  else if ¬ task.finalizers.contains FINALIZER then
    let _ ← request (.patchFinalizers name (task.finalizers ++ [FINALIZER]))
    return false
  else
    match validateTask name task.spec with
    | .error _ =>
      let _ ← request (.patchStatus name .failed (some "invalid_spec"))
      return false
    | .ok _ =>
      if task.spec.desiredState = "Cancelled" ∧ task.phase ∉ TERMINAL then
        if ← cleanup name task.uid then
          let _ ← request (.patchStatus name .cleaned (some "cancelled"))
        else
          let _ ← request (.patchStatus name .cancelled (some "cleanup_in_progress"))
        return false
      else if task.phase ∈ TERMINAL then return false
      else reconcileWorker name task.uid allowWorkloadStart

def reconcileAll : List (String × Task) → ℕ → Prog api Unit
  | [], _ => pure ()
  | item :: items, startsRemaining => do
    match ← (reconcile item.1 item.2 (0 < startsRemaining)).run with
    | .ok true => reconcileAll items (startsRemaining - 1)
    | _ => reconcileAll items startsRemaining

def round (maxWorkloadStarts : ℕ) : Prog api Unit := do
  match ← (request .listTasks).run with
  | .ok items => reconcileAll items maxWorkloadStarts
  | .error _ => pure ()

end ClawBox.Cell
