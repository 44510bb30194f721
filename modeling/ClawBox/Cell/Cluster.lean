import ClawBox.Lib.PyDict
import ClawBox.Lib.Remote

namespace ClawBox.Cell

/-- `TIMED_OUT` has the value of `FAILED`, which makes it the same member. -/
inductive CellPhase
  | queued
  | running
  | succeeded
  | failed
  | cancelled
  | cleaned
  deriving DecidableEq

def TERMINAL : List CellPhase := [.succeeded, .failed, .cancelled, .cleaned]

def FINALIZER : String := "clawbox.openai.com/cube-cleanup"

structure TaskSpec where
  -- The fields with a value that is not empty.
  given : List String
  -- Whether `ExperimentSpec.model_validate` takes the experiment.
  experimentValid : Bool
  desiredState : String

structure Task where
  uid : ℕ
  finalizers : List String
  deletionTimestamp : Bool
  spec : TaskSpec
  phase : CellPhase
  errorCategory : Option String

structure Job where
  owner : Option ℕ
  succeeded : ℕ
  failed : ℕ

def Job.phase (j : Job) : CellPhase :=
  if j.succeeded ≠ 0 then .succeeded else if j.failed ≠ 0 then .failed else .running

/-- Jobs, services and config maps are named after their task, and stand under its name here; a sandbox stands for
itself by its owner. -/
structure Cluster where
  tasks : PyDict String Task
  jobs : PyDict String Job
  services : PyDict String (Option ℕ)
  configMaps : PyDict String (Option ℕ)
  sandboxes : List ℕ
  nextUid : ℕ

inductive ApiError
  | notFound
  | conflict
  | other

inductive Req
  | listTasks
  | patchStatus (name : String) (phase : CellPhase) (errorCategory : Option String)
  | patchFinalizers (name : String) (finalizers : List String)
  | readConfigMap (name : String)
  | createConfigMap (name : String) (owner : ℕ)
  | readService (name : String)
  | createService (name : String) (owner : ℕ)
  | deleteService (name : String)
  | readEndpoint (name : String)
  | readJob (name : String)
  | createJob (name : String) (owner : ℕ)
  | deleteJob (name : String)
  | listJobs
  | killOwnedSandboxes (owner : ℕ)
  | listOwnedSandboxes (owner : ℕ)

def Req.Out : Req → Type
  | .listTasks => List (String × Task)
  | .readConfigMap _ => Option ℕ
  | .readService _ => Option ℕ
  | .readEndpoint _ => Bool
  | .readJob _ => Job
  | .listJobs => List (String × Job)
  | .listOwnedSandboxes _ => List ℕ
  | _ => Unit

def found {β : Type} : Option β → Except ApiError β
  | some x => .ok x
  | none => .error .notFound

def reads {β : Type} (answer : Except ApiError β) (s : Cluster) (a : Except ApiError β) (t : Cluster) : Prop :=
  t = s ∧ (a = answer ∨ a = .error .other)

def writes (effect : Cluster) (s : Cluster) (a : Except ApiError Unit) (t : Cluster) : Prop :=
  t = effect ∧ (a = .ok () ∨ a = .error .other) ∨ t = s ∧ a = .error .other

namespace Cluster

def empty : Cluster := ⟨∅, ∅, ∅, ∅, [], 0⟩

def putTask (s : Cluster) (name : String) (t : Task) : Cluster :=
  { s with tasks := if t.deletionTimestamp ∧ t.finalizers = [] then s.tasks.pop name else s.tasks.set name t }

def setJob (s : Cluster) (name : String) (j : Job) : Cluster := { s with jobs := s.jobs.set name j }

def popJob (s : Cluster) (name : String) : Cluster := { s with jobs := s.jobs.pop name }

def setService (s : Cluster) (name : String) (owner : Option ℕ) : Cluster :=
  { s with services := s.services.set name owner }

def popService (s : Cluster) (name : String) : Cluster := { s with services := s.services.pop name }

def patch (s : Cluster) (name : String) (f : Task → Task) (a : Except ApiError Unit) (t : Cluster) : Prop :=
  match s.tasks.get? name with
  | none => reads (.error .notFound) s a t
  | some task => writes (s.putTask name (f task)) s a t

def create {β : Type} (d : PyDict String β) (name : String) (effect : Cluster) (s : Cluster) (a : Except ApiError Unit)
    (t : Cluster) : Prop :=
  if (d.get? name).isSome then reads (.error .conflict) s a t else writes effect s a t

def delete {β : Type} (d : PyDict String β) (name : String) (effect : Cluster) (s : Cluster) (a : Except ApiError Unit)
    (t : Cluster) : Prop :=
  if (d.get? name).isSome then writes effect s a t ∨ t = s ∧ a = .ok () else reads (.error .notFound) s a t

def act : (r : Req) → Cluster → Except ApiError r.Out → Cluster → Prop
  | .listTasks, s, a, t => reads (.ok s.tasks.entries) s a t
  | .patchStatus name phase category, s, a, t =>
    s.patch name (fun task => { task with phase := phase, errorCategory := category.or task.errorCategory }) a t
  | .patchFinalizers name finalizers, s, a, t => s.patch name (fun task => { task with finalizers := finalizers }) a t
  | .readConfigMap name, s, a, t => reads (found (s.configMaps.get? name)) s a t
  | .createConfigMap name owner, s, a, t =>
    create s.configMaps name { s with configMaps := s.configMaps.set name (some owner) } s a t
  | .readService name, s, a, t => reads (found (s.services.get? name)) s a t
  | .createService name owner, s, a, t => create s.services name (s.setService name (some owner)) s a t
  | .deleteService name, s, a, t => delete s.services name (s.popService name) s a t
  | .readEndpoint _, s, _, t => t = s
  | .readJob name, s, a, t => reads (found (s.jobs.get? name)) s a t
  | .createJob name owner, s, a, t => create s.jobs name (s.setJob name ⟨some owner, 0, 0⟩) s a t
  | .deleteJob name, s, a, t => delete s.jobs name (s.popJob name) s a t
  | .listJobs, s, a, t => reads (.ok s.jobs.entries) s a t
  | .killOwnedSandboxes owner, s, a, t =>
    ∃ left, List.Sublist left s.sandboxes ∧ (∀ u ∈ s.sandboxes, u ≠ owner → u ∈ left) ∧
      t = { s with sandboxes := left } ∧
      (a = .ok () ∨ a = .error .other)
  | .listOwnedSandboxes owner, s, a, t => reads (.ok (s.sandboxes.filter (· = owner))) s a t

inductive Others : Cluster → Cluster → Prop
  | createTask {s : Cluster} {name : String} {task : Task} : s.tasks.get? name = none → task.uid = s.nextUid →
      task.deletionTimestamp = false → task.phase = .queued →
      Others s { s with tasks := s.tasks.set name task, nextUid := s.nextUid + 1 }
  | editTask {s : Cluster} {name : String} {task : Task} (spec : TaskSpec) : s.tasks.get? name = some task →
      Others s (s.putTask name { task with spec := spec })
  -- Nobody else takes the finalizer of the controller away.
  | editFinalizers {s : Cluster} {name : String} {task : Task} (finalizers : List String) : s.tasks.get? name =
    some task →
      (FINALIZER ∈ task.finalizers → FINALIZER ∈ finalizers) →
      Others s (s.putTask name { task with finalizers := finalizers })
  | deleteTask {s : Cluster} {name : String} {task : Task} : s.tasks.get? name = some task →
      Others s (s.putTask name { task with deletionTimestamp := true })
  | jobProgress {s : Cluster} {name : String} {j : Job} (succeeded failed : ℕ) : s.jobs.get? name = some j →
      j.succeeded ≤ succeeded → j.failed ≤ failed →
      Others s (s.setJob name { j with succeeded := succeeded, failed := failed })
  | jobGone {s : Cluster} (name : String) : Others s (s.popJob name)
  -- A service of somebody else.
  | foreignService {s : Cluster} (name : String) : s.services.get? name = none → Others s (s.setService name none)
  | serviceGone {s : Cluster} (name : String) : Others s (s.popService name)
  | configMaps {s : Cluster} (configMaps : PyDict String (Option ℕ)) : Others s { s with configMaps := configMaps }
  -- A worker starts a sandbox for its task.
  | sandboxStarted {s : Cluster} {name : String} {j : Job} {u : ℕ} : s.jobs.get? name = some j → j.phase = .running →
      j.owner = some u → Others s { s with sandboxes := u :: s.sandboxes }
  | sandboxesGone {s : Cluster} {left : List ℕ} : List.Sublist left s.sandboxes → Others s { s with sandboxes := left }

end Cluster

def api : Remote.Api := ⟨Cluster, Req, fun r => Except ApiError r.Out, Cluster.act, Cluster.Others⟩

end ClawBox.Cell
