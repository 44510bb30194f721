import ClawBox.Lib.JsonSorted
import ClawBox.Matrix.Resources
import Mathlib.Data.List.Dedup
import Mathlib.Data.List.ProdSigma

namespace ClawBox.Matrix

open Fields JsonText

inductive WorkloadSource
  | sweRebench
  | recordedTrace
  | synthetic
  deriving DecidableEq

inductive SessionAssignment
  | singleCase
  | roundRobin
  | unique
  deriving DecidableEq

def SessionAssignment.value : SessionAssignment → String
  | .singleCase => "single_case"
  | .roundRobin => "round_robin"
  | .unique => "unique"

structure WorkloadCase where
  caseId : Text
  source : WorkloadSource
  prompt : Text := []
  named : caseId ≠ []
  deriving DecidableEq

def casesRefused (source : WorkloadSource) (cases : List WorkloadCase) (assignment : SessionAssignment) : Bool :=
  cases.any (·.source ≠ source) ||
    assignment = .roundRobin && cases.length < 2 && (!cases.isEmpty || source = .recordedTrace)

structure Workload where
  source : WorkloadSource
  input : Text
  repetitions : ℕ := 1
  cases : List WorkloadCase := []
  sessionAssignment : SessionAssignment := .unique
  repeated : 1 ≤ repetitions
  matched : casesRefused source cases sessionAssignment = false

structure Branching where
  parentNodes : List Text
  branchesPerParent : ℕ := 8
  arrivalBatches : List ℕ := [32, 32, 32, 32]
  perNodeConcurrency : ℕ := 32
  perNodeMemoryMib : ℕ := 32768
  complete : arrivalBatches.sum = parentNodes.length * branchesPerParent
  two : parentNodes.dedup.length = 2

inductive Placement
  | osDefault
  | roundRobin
  | loadAware
  | explicit
  | affinity
  | snapshotAware
  deriving DecidableEq

structure Execution where
  placementPolicy : Placement := .roundRobin
  sessionComputeNodes : List Text := []
  concurrencyLevels : List ℕ := [1]
  snapshotBranching : Option Branching := none
  randomizedOrder : Bool := true
  randomSeed : ℤ := 0
  nonempty : concurrencyLevels ≠ []
  positive : ∀ level ∈ concurrencyLevels, 1 ≤ level
  distinct : concurrencyLevels.Nodup

inductive Deployment
  | managed
  | osDefault
  deriving DecidableEq

inductive Admission
  | off
  | fixed
  | predicted
  deriving DecidableEq

inductive RuntimeControl
  | off
  | noControl
  | phaseMemcg
  | releaseCpu
  | pressureLifecycle
  | adaptiveJoint
  | explicit
  deriving DecidableEq

inductive Reclamation
  | resident
  | snapshotPause
  deriving DecidableEq

inductive Eviction
  | none
  | eager
  | fixedDelay
  | waitAwarePressure
  | timeOracle
  | tieredLruOracle
  | tieredTimeOracle
  deriving DecidableEq

inductive Restore
  | none
  | reactive
  | proactive
  deriving DecidableEq

def Deployment.value : Deployment → String
  | .managed => "managed"
  | .osDefault => "os-default"

def Admission.value : Admission → String
  | .off => "off"
  | .fixed => "fixed"
  | .predicted => "predicted"

def RuntimeControl.value : RuntimeControl → String
  | .off => "off"
  | .noControl => "no_control"
  | .phaseMemcg => "phase_memcg"
  | .releaseCpu => "release_cpu"
  | .pressureLifecycle => "pressure_lifecycle"
  | .adaptiveJoint => "adaptive_joint"
  | .explicit => "explicit"

def Reclamation.value : Reclamation → String
  | .resident => "resident"
  | .snapshotPause => "snapshot_pause"

def Eviction.value : Eviction → String
  | .none => "none"
  | .eager => "eager"
  | .fixedDelay => "fixed_delay"
  | .waitAwarePressure => "wait_aware_pressure"
  | .timeOracle => "time_oracle"
  | .tieredLruOracle => "tiered_lru_oracle"
  | .tieredTimeOracle => "tiered_time_oracle"

def Restore.value : Restore → String
  | .none => "none"
  | .reactive => "reactive"
  | .proactive => "proactive"

def RuntimeControl.coordinatesRelease (c : RuntimeControl) : Bool := c = .pressureLifecycle || c = .adaptiveJoint

structure PolicyFields where
  name : Text
  deployment : Deployment := .managed
  admission : Admission
  runtimeControl : RuntimeControl := .off
  reclamation : Reclamation
  eviction : Eviction
  restore : Restore
  templateAwarePlacement : Bool := false
  snapshotAwareResidency : Bool := false
  memoryProtection : Bool := false
  cpuReleaseBoost : Bool := false
  idleReleaseRanking : Bool := false
  runtimeSnapshot : Bool := true
  resourceOverrides : List (Text × Json) := []
  executionOverrides : List (Text × Json) := []
  mechanisms : List (Text × Json) := []

def nameRefused (name : Text) : Bool :=
  let lower (c : Char) : Bool := 'a' ≤ c && c ≤ 'z' || '0' ≤ c && c ≤ '9'
  !(name.head?.any lower && name.all (fun c => lower c || c = '_' || c = '-') && name.length ≤ 64)

def PolicyFields.refused (p : PolicyFields) : Bool :=
  p.idleReleaseRanking || p.runtimeControl.coordinatesRelease ||
  p.deployment = .osDefault && (p.admission ≠ .off || p.runtimeControl ≠ .off && p.runtimeControl ≠ .noControl ||
    p.reclamation ≠ .resident || p.templateAwarePlacement || p.snapshotAwareResidency) ||
  p.eviction ≠ .none && p.eviction ≠ .waitAwarePressure ||
  p.restore ≠ .none && p.restore ≠ .reactive ||
  p.reclamation = .resident && (p.eviction ≠ .none || p.restore ≠ .none) ||
  p.reclamation ≠ .resident && (p.eviction = .none || p.restore = .none) ||
  p.snapshotAwareResidency && (p.reclamation ≠ .snapshotPause || p.eviction = .none)

def PolicyFields.wellFormed (p : PolicyFields) : Bool :=
  wellFormedMembers p.resourceOverrides && wellFormedMembers p.executionOverrides && wellFormedMembers p.mechanisms

structure Policy extends PolicyFields where
  namedOk : nameRefused name = false
  tupleOk : toPolicyFields.refused = false
  dumpsOk : toPolicyFields.wellFormed = true

def text (s : String) : Json := .str s.toList

def PolicyFields.modelDump (p : PolicyFields) : Json :=
  .obj [("name".toList, .str p.name), ("deployment".toList, text p.deployment.value),
    ("admission".toList, text p.admission.value), ("runtime_control".toList, text p.runtimeControl.value),
    ("reclamation".toList, text p.reclamation.value), ("eviction".toList, text p.eviction.value),
    ("restore".toList, text p.restore.value),
    ("template_aware_placement".toList, .bool p.templateAwarePlacement),
    ("snapshot_aware_residency".toList, .bool p.snapshotAwareResidency),
    ("memory_protection".toList, .bool p.memoryProtection), ("cpu_release_boost".toList, .bool p.cpuReleaseBoost),
    ("idle_release_ranking".toList, .bool p.idleReleaseRanking), ("runtime_snapshot".toList, .bool p.runtimeSnapshot),
    ("resource_overrides".toList, .obj p.resourceOverrides), ("execution_overrides".toList, .obj p.executionOverrides),
    ("mechanisms".toList, .obj p.mechanisms)]

def Policy.bare (p : Policy) : Policy where
  toPolicyFields := { p.toPolicyFields with resourceOverrides := [], executionOverrides := [] }
  namedOk := p.namedOk
  tupleOk := p.tupleOk
  dumpsOk := by
    have h := p.dumpsOk
    simp only [PolicyFields.wellFormed, Bool.and_eq_true] at h ⊢
    exact ⟨⟨rfl, rfl⟩, h.2⟩

inductive Suite
  | admission
  | numaSnapshot
  deriving DecidableEq

abbrev ValidResources := { r : Resources // r.validate.isSome = true }

structure Spec where
  schemaVersion : ℤ
  -- a design that is not empty
  design : Bool := false
  suite : Option Suite := none
  workload : Workload
  sandboxMemoryMib : ℕ := 3072
  execution : Execution
  resources : ValidResources
  policies : List Policy

structure Arm where
  armId : Text
  specDigest : Text
  case : WorkloadCase
  sessionCases : List WorkloadCase
  sessionAssignment : SessionAssignment
  repetition : ℕ
  concurrency : ℕ
  policy : Policy
  execution : Execution
  resources : Resources

/-- What the planning of arms rests on: the files, the checks that do not bear on the arms' identity, and the hash. -/
structure Surroundings where
  -- The cases that the records of a manifest make, when it can be read and none is refused.
  records : Text → WorkloadSource → Option (List WorkloadCase)
  -- The checks of `validate_v2` on placement, resources and predictions, outside of snapshot branching.
  otherwiseRefused : Spec → List WorkloadCase → Bool
  -- The two sections with a policy's overrides merged in, when both are valid.
  overridden : Spec → Policy → Option (Execution × ValidResources)
  specDigest : Spec → Option Text
  -- The first 24 digits of the SHA-256 of a text, taken as injective.
  digest : Text → Text
  digest_injective : Function.Injective digest
  -- `random.Random(seed).shuffle`
  shuffle : ℤ → List Arm → List Arm
  shuffle_perm : ∀ seed arms, (shuffle seed arms).Perm arms

def pathStem (input : Text) : Text :=
  let name := (posixPath input).2.getLast?.getD []
  let stem := (name.reverse.dropWhile (· ≠ '.')).tail.reverse
  if stem = [] ∨ name.getLast? = some '.' then name else stem

def recordedCase (input : Text) : WorkloadCase :=
  if h : pathStem input = [] then ⟨"recorded-trace".toList, .recordedTrace, [], by decide⟩
  else ⟨pathStem input, .recordedTrace, [], h⟩

def loadWorkloadCases (w : Surroundings) (workload : Workload) : Option (List WorkloadCase) :=
  if !workload.cases.isEmpty then some workload.cases
  else if workload.source = .recordedTrace then some [recordedCase workload.input]
  else
    (w.records workload.input workload.source).filter fun cases =>
      !cases.isEmpty && !(workload.sessionAssignment = .roundRobin && cases.length < 2)

def maxLevel (x : Execution) : ℕ := x.concurrencyLevels.foldr max 0

def sameSet (a b : List Text) : Bool := a.all b.contains && b.all a.contains

def branchingRefused (s : Spec) (branching : Branching) (storage : SchedulingStorage) : Bool :=
  let nodeIds := s.resources.1.computeNodes.map ComputeNode.nodeId
  let coldRoot := PyText.strip (s.resources.1.coldSnapshotRoot.getD [])
  nodeIds.dedup.length ≠ 2 || !sameSet branching.parentNodes nodeIds ||
  !sameSet (storage.localRoots.map Prod.fst) nodeIds ||
  s.execution.placementPolicy ≠ .affinity && s.execution.placementPolicy ≠ .loadAware &&
    s.execution.placementPolicy ≠ .snapshotAware ||
  s.resources.1.computeNodes.length * branching.perNodeConcurrency < maxLevel s.execution ||
  storage.warmCapacityMib ≠ s.resources.1.warmMemoryCapacityMib ||
  branching.perNodeMemoryMib < s.sandboxMemoryMib || s.resources.1.localMemoryCgroup.all (· = []) ||
  coldRoot = [] || !plainPath coldRoot ||
  s.policies.any (·.admission ≠ .off) || s.policies.any (·.reclamation ≠ .resident)

def plainRefused (w : Surroundings) (s : Spec) : Bool :=
  match loadWorkloadCases w s.workload with
  | none => true
  | some cases =>
    !(cases.map WorkloadCase.caseId).Nodup ||
    s.workload.sessionAssignment = .unique && cases.length < maxLevel s.execution ||
    s.schemaVersion ≠ 3 || s.policies.isEmpty ||
    !(s.policies.map fun p => p.name).Nodup || w.otherwiseRefused s cases

def valid (w : Surroundings) (s : Spec) : Bool :=
  match s.execution.snapshotBranching, s.resources.1.snapshotSchedulingStorage with
  | none, none => !plainRefused w s
  | some branching, some storage => !branchingRefused s branching storage
  | _, _ => false

def effectiveSpec (w : Surroundings) (s : Spec) (policy : Policy) : Option Spec :=
  ((w.overridden s policy).map fun x =>
    { s with
      schemaVersion := 3, design := false, suite := none, execution := x.1, resources := x.2
      policies := [policy.bare] }).filter (valid w)

def accepted (w : Surroundings) (s : Spec) : Bool :=
  if s.schemaVersion = 4 then
    s.design && s.suite = none && !s.policies.isEmpty && (s.policies.map fun p => p.name).Nodup &&
      s.policies.all fun p => (effectiveSpec w s p).isSome
  else valid w s

abbrev Coordinates := (WorkloadCase × List WorkloadCase) × ℕ × ℕ × Policy

def caseGroups (assignment : SessionAssignment) : List WorkloadCase → Option (List (WorkloadCase × List WorkloadCase))
  | cases =>
    if assignment = .roundRobin ∨ assignment = .unique then cases.head?.map fun first => [(first, cases)]
    else some (cases.map fun c => (c, [c]))

def coordinates (s : Spec) (groups : List (WorkloadCase × List WorkloadCase)) : List Coordinates :=
  groups ×ˢ List.range s.workload.repetitions ×ˢ s.execution.concurrencyLevels ×ˢ s.policies

def identity (s : Spec) (digest : Text) (c : Coordinates) : Json :=
  .obj [("spec_digest".toList, .str digest), ("case_ids".toList, .arr (c.1.2.map fun i => .str i.caseId)),
    ("session_assignment".toList, text s.workload.sessionAssignment.value),
    ("repetition".toList, .num (PyText.digits c.2.1)), ("concurrency".toList, .num (PyText.digits c.2.2.1)),
    ("policy".toList, c.2.2.2.modelDump)]

def armIdOf (w : Surroundings) (s : Spec) (digest : Text) (c : Coordinates) : Text :=
  w.digest (canonical (identity s digest c))

def inherits (s : Spec) (policy : Policy) : Bool := policy.deployment = .osDefault || s.suite = some .admission

def armSettings (w : Surroundings) (s : Spec) (policy : Policy) : Option (Resources × Execution) :=
  if s.schemaVersion = 4 then (effectiveSpec w s policy).map fun e => (e.resources.1, e.execution)
  else
    (if inherits s policy then
      s.resources.1.osManaged.validate.map fun r =>
        (r, { s.execution with placementPolicy := .osDefault, sessionComputeNodes := [] })
    else some (s.resources.1, s.execution)).map fun x =>
      if x.1.snapshotStorage ≠ .warmOnly ∧ x.1.sharedMemoryBorrowLimitMib = none ∧
          x.1.memoryScheduling ≠ .snapshotOnly ∧ x.1.memoryScheduling ≠ .joint then
        ({ x.1 with warmMemoryCapacityMib := 0 }, x.2)
      else x

def makeArm (w : Surroundings) (s : Spec) (digest : Text) (c : Coordinates) : Option Arm :=
  (armSettings w s c.2.2.2).map fun x =>
    { armId := armIdOf w s digest c, specDigest := digest, case := c.1.1, sessionCases := c.1.2
      sessionAssignment := s.workload.sessionAssignment, repetition := c.2.1, concurrency := c.2.2.1
      policy := c.2.2.2, execution := x.2, resources := x.1 }

def makeArms (w : Surroundings) (s : Spec) (digest : Text) : List Coordinates → Option (List Arm)
  | [] => some []
  | c :: rest => (makeArm w s digest c).bind fun a => (makeArms w s digest rest).map (a :: ·)

def builtArms (w : Surroundings) (s : Spec) : Option (List Arm) :=
  (w.specDigest s).bind fun digest =>
    (loadWorkloadCases w s.workload).bind fun cases =>
      (caseGroups s.workload.sessionAssignment cases).bind fun groups =>
        makeArms w s digest (coordinates s groups)

def expandMatrix (w : Surroundings) (s : Spec) : Option (List Arm) :=
  (builtArms w s).map fun arms => if s.execution.randomizedOrder then w.shuffle s.execution.randomSeed arms else arms

def Arm.coordinates (a : Arm) : Coordinates := ((a.case, a.sessionCases), a.repetition, a.concurrency, a.policy)

structure ResultEnvelope where
  arm : Arm
  attemptId : Text
  -- `is_trial_outcome`
  trialOutcome : Bool
  cleanupVerified : Bool

structure ArmFiles where
  results : Text → Option ResultEnvelope := fun _ => none
  markers : Text → Option Text := fun _ => none

def ArmFiles.storeResult (f : ArmFiles) (r : ResultEnvelope) : ArmFiles where
  results := Function.update f.results r.arm.armId (some r)
  markers := Function.update f.markers r.arm.armId (if r.trialOutcome then some r.arm.specDigest else none)

def ArmFiles.completedResult (f : ArmFiles) (attemptId : Text) (arm : Arm) : Option ResultEnvelope :=
  match f.results arm.armId, f.markers arm.armId with
  | some r, some marker =>
    if r.trialOutcome ∧ r.attemptId = attemptId ∧ r.arm.armId = arm.armId ∧ r.arm.specDigest = arm.specDigest ∧
      PyText.strip marker = arm.specDigest ∧ r.cleanupVerified then some r
    else none
  | _, _ => none

end ClawBox.Matrix
