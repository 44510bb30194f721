import ClawBox.Lib.PyDict
import ClawBox.Lib.Raising
import ClawBox.Lib.Transition
import Mathlib.Algebra.Order.Field.Rat

namespace ClawBox.Rollout

open Transition Raising

structure NodeState where
  slots : ℕ
  memoryLimitMib : ℕ
  vmMemoryMib : ℕ
  active : ℤ := 0
  waiting : ℤ := 0
  completed : ℕ := 0
  deriving DecidableEq

def NodeState.available (x : NodeState) : Bool :=
  decide (x.active < x.slots) && decide ((x.active + 1) * x.vmMemoryMib ≤ x.memoryLimitMib)

inductive Policy
  | affinity
  | loadAware
  | snapshotAware
  deriving DecidableEq

structure Estimates where
  queueSeconds : String → ℚ
  totalSeconds : String → ℚ
  migrationThreshold : ℚ

def leastBy (key : String → ℚ) : List String → Option String
  | [] => none
  | n :: l =>
    match leastBy key l with
    | none => some n
    | some b => if key b < key n ∨ key b = key n ∧ b < n then some b else some n

def select (policy : Policy) (nodes : List String) (source : String) (feasible : String → Bool) (e : Estimates) :
    Option String :=
  let available := nodes.filter fun n => feasible n
  match policy with
  | .affinity => if feasible source then some source else none
  | .loadAware => leastBy e.queueSeconds available
  | .snapshotAware =>
    match leastBy e.totalSeconds available with
    | none => none
    | some n =>
      if n ≠ source ∧ feasible source ∧ e.totalSeconds source - e.totalSeconds n ≤ e.migrationThreshold then some source
      else some n

inductive Fault
  | os
  | other
  deriving DecidableEq

inductive TransferMode
  | peerDirect
  | sharedRelay
  deriving DecidableEq

structure Package where
  key : String
  sourceNode : String
  deriving DecidableEq

structure Storage where
  -- the files `branches/<rollout_id>.cow` of every node
  branches : PySet (String × ℕ) := ∅
  rootfsCached : PySet (String × String) := ∅
  sharedRootfsCached : PySet String := ∅

/-- Which steps of one `prepare_rollout` raise, and what. -/
structure Trouble where
  -- `feasible`: no space left is an `OSError` of this step
  check : Option Fault := none
  create : Option Fault := none
  -- `posix_fallocate`, `pwrite`, `fsync`, `close` and the sample at the end of `reserve_branch`
  fill : Option Fault := none
  upload : Option Fault := none
  download : Option Fault := none
  verify : Option Fault := none
  -- the sample at the end of `stage`
  sample : Option Fault := none
  unlink : Option Fault := none
  resample : Option Fault := none
  deriving DecidableEq

abbrev Store := Raising Storage Fault

def meet : Option Fault → Store Unit
  | none => pure ()
  | some e => raise e

def reserveBranch (id : ℕ) (target : String) (x : Trouble) : Store Unit := do
  let s ← get
  -- `O_EXCL`
  if (s.branches.get? (target, id)).isSome then raise .os
  else do
    meet x.create
    modify fun s => { s with branches := s.branches.add (target, id) }
    meet x.fill

def rootfsHit (package : Package) (target : String) (s : Storage) : Bool :=
  target = package.sourceNode || (s.rootfsCached.get? (package.key, target)).isSome

def relay (package : Package) (x : Trouble) : Store Unit := do
  let s ← get
  if (s.sharedRootfsCached.get? package.key).isSome then pure ()
  else do
    meet x.upload
    modify fun s => { s with sharedRootfsCached := s.sharedRootfsCached.add package.key }

def stage (mode : TransferMode) (package : Package) (target : String) (x : Trouble) : Store Unit := do
  let s ← get
  if rootfsHit package target s then pure ()
  else do
    match mode with
    | .peerDirect => pure ()
    | .sharedRelay => relay package x
    meet x.download
    meet x.verify
    modify fun s => { s with rootfsCached := s.rootfsCached.add (package.key, target) }
    meet x.sample

def dropBranch (id : ℕ) (target : String) (x : Trouble) (e : Fault) : Store Unit := do
  meet x.unlink
  modify fun s => { s with branches := s.branches.discard (target, id) }
  meet x.resample
  raise e

def prepareRollout (mode : TransferMode) (package : Package) (target : String) (id : ℕ) (x : Trouble) : Store Unit := do
  meet x.check
  reserveBranch id target x
  (stage mode package target x).tryExcept (dropBranch id target x)

inductive Pc
  | start
  | preparing (node : String) (excluded : List String)
  -- after an `OSError`: the next node is not chosen yet
  | reselecting (excluded : List String)
  | acquiring (node : String)
  | serving (node : String)
  -- in the `finally` block
  | closing (node : String) (sandbox : Bool)
  | releasing (node : String)
  | ended
  deriving DecidableEq

structure RolloutRun where
  package : Package
  pc : Pc := .start
  deriving DecidableEq

structure Config where
  policy : Policy
  mode : TransferMode

structure State where
  nodes : PyDict String NodeState
  rollouts : PyDict ℕ RolloutRun := ∅
  storage : Storage := {}

inductive Action
  | begin (i : ℕ) (package : Package)
  -- `feasible` or the estimates raise before `choose`
  | fail (i : ℕ)
  | choose (i : ℕ) (feasible : String → Bool) (e : Estimates)
  | prepare (i : ℕ) (x : Trouble)
  | acquire (i : ℕ)
  -- VM creation and the commands, which may raise before or after the sandbox is there
  | serve (i : ℕ) (sandbox : Bool)
  | kill (i : ℕ) (fails : Bool)
  | release (i : ℕ)

namespace State

def moveTo (s : State) (i : ℕ) (x : RolloutRun) (pc : Pc) : State :=
  { s with rollouts := s.rollouts.set i { x with pc := pc } }

def changeNode (s : State) (node : String) (f : NodeState → NodeState) : State :=
  match s.nodes.get? node with
  | none => s
  | some x => { s with nodes := s.nodes.set node (f x) }

def choose (c : Config) (s : State) (i : ℕ) (x : RolloutRun) (excluded : List String) (feasible : String → Bool)
    (e : Estimates) : State :=
  match select c.policy s.nodes.keys x.package.sourceNode (fun n => feasible n && !excluded.contains n) e with
  | none => s.moveTo i x .ended
  | some n =>
    let t := s.changeNode n fun y => { y with waiting := y.waiting + 1 }
    -- the condition of the loop
    if excluded.length < s.nodes.keys.length then t.moveTo i x (.preparing n excluded) else t.moveTo i x .ended

def prepared (c : Config) (s : State) (i : ℕ) (x : RolloutRun) (node : String) (excluded : List String) :
    Except Fault Unit → State
  | .ok () => s.moveTo i x (.acquiring node)
  | .error .os =>
    let t := s.changeNode node fun y => { y with waiting := y.waiting - 1 }
    if c.policy = .affinity then t.moveTo i x .ended else t.moveTo i x (.reselecting (node :: excluded))
  | .error .other => s.moveTo i x .ended

abbrev Outcome := Except Fault Unit

def after (s : State) : Option (State × Outcome) := some (s, .ok ())

-- A step is a section under the condition of the scheduler or a storage lock. The estimates, means of past times,
-- are inputs.
def next (c : Config) (s : State) : Action → Option (State × Outcome)
  | .begin i package =>
    match s.rollouts.get? i with
    | none =>
      if package.sourceNode ∈ s.nodes.keys then after { s with rollouts := s.rollouts.set i { package } } else none
    | some _ => none
  | .fail i =>
    match s.rollouts.get? i with
    | some x =>
      match x.pc with
      | .start | .reselecting _ => some (s.moveTo i x .ended, .error .os)
      | _ => none
    | none => none
  | .choose i feasible e =>
    match s.rollouts.get? i with
    | some x =>
      match x.pc with
      | .start => after (s.choose c i x [] feasible e)
      | .reselecting excluded => after (s.choose c i x excluded feasible e)
      | _ => none
    | none => none
  | .prepare i t =>
    match s.rollouts.get? i with
    | some x =>
      match x.pc with
      | .preparing node excluded =>
        let r := (prepareRollout c.mode x.package node i t).run s.storage
        some ({ s with storage := r.2 }.prepared c i x node excluded r.1, r.1)
      | _ => none
    | none => none
  | .acquire i =>
    match s.rollouts.get? i with
    | some x =>
      match x.pc with
      | .acquiring node =>
        match s.nodes.get? node with
        | none => none
        | some y =>
          if y.available then
            after ((s.changeNode node fun y => { y with waiting := y.waiting - 1, active := y.active + 1 }).moveTo i x
              (.serving node))
          else none
      | _ => none
    | none => none
  | .serve i sandbox =>
    match s.rollouts.get? i with
    | some x =>
      match x.pc with
      | .serving node => after (s.moveTo i x (.closing node sandbox))
      | _ => none
    | none => none
  | .kill i fails =>
    match s.rollouts.get? i with
    | some x =>
      match x.pc with
      | .closing node sandbox =>
        if sandbox && fails then some (s.moveTo i x .ended, .error .other) else after (s.moveTo i x (.releasing node))
      | _ => none
    | none => none
  | .release i =>
    match s.rollouts.get? i with
    | some x =>
      match x.pc with
      | .releasing node =>
        after ((s.changeNode node fun y => { y with active := y.active - 1, completed := y.completed + 1 }).moveTo i x
          .ended)
      | _ => none
    | none => none

def Start (s : State) : Prop :=
  (∀ n y, s.nodes.get? n = some y → y.active = 0 ∧ y.waiting = 0) ∧ s.rollouts = ∅ ∧ s.storage.branches = ∅

def system (c : Config) : System State (Action × Outcome) := .ofNext Start (next c)

end State

end ClawBox.Rollout
