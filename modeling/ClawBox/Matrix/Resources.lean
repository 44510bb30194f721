import ClawBox.Lib.Fields
import Mathlib.Data.Finset.Basic
import Mathlib.Data.Rat.Defs
import Mathlib.Tactic.Common

namespace ClawBox.Matrix

open Fields

inductive LifecycleAdmission
  | configuredCapacity
  | osManaged
  deriving DecidableEq

inductive SnapshotMechanism
  | fullCopy
  | incrementalCow
  deriving DecidableEq

inductive SnapshotStorage
  | tiered
  | warmOnly
  deriving DecidableEq

inductive MemoryScheduling
  | static
  | localOnly
  | snapshotOnly
  | joint
  deriving DecidableEq

structure ComputeNode where
  nodeId : Text
  numaNode : ℕ
  -- what `parse_cpu_list` makes of `cpus`
  cpus : Finset ℕ
  memoryCapacityMib : ℕ
  lowWatermarkMib : ℕ
  highWatermarkMib : ℕ
  ordered : 0 < lowWatermarkMib ∧ lowWatermarkMib < highWatermarkMib ∧ highWatermarkMib < memoryCapacityMib

def posixPath (path : Text) : ℕ × List Text :=
  let slashes := (path.takeWhile (· = '/')).length
  (if slashes = 0 then 0 else if slashes = 2 then 2 else 1,
    (splitBy (· = '/') path).filter fun part => part ≠ [] ∧ part ≠ ['.'])

def plainPath (path : Text) : Bool := (posixPath path).1 ≠ 0 && !(posixPath path).2.contains ['.', '.']

structure SchedulingStorage where
  localRoots : List (Text × Text)
  sharedMounts : List (Text × Text)
  warmRoot : Text
  warmCapacityMib : ℕ := 32768
  keys : (localRoots.map Prod.fst).Nodup ∧ (sharedMounts.map Prod.fst).Nodup
  nodes : localRoots.length = 2 ∧ (localRoots.map Prod.fst).Perm (sharedMounts.map Prod.fst)
  plain : ∀ path ∈ localRoots.map Prod.snd ++ sharedMounts.map Prod.snd ++ [warmRoot], plainPath path = true
  distinct : ((localRoots.map Prod.snd ++ sharedMounts.map Prod.snd ++ [warmRoot]).map posixPath).Nodup

structure ActionCosts where
  coldCheckpointSecondsPerGib : Option ℚ
  coldRestoreSecondsPerGib : Option ℚ

structure Resources where
  lifecycleAdmission : LifecycleAdmission := .configuredCapacity
  residentCapacityAccounting : Bool := false
  lifecycleReservationScale : ℚ := 1
  proactiveCacheReclaim : Bool := true
  computeNodes : List ComputeNode := []
  snapshotSchedulingStorage : Option SchedulingStorage := none
  poolMemoryBudgetMib : ℕ
  localMemoryLowWatermarkMib : Option ℕ := none
  localMemoryHighWatermarkMib : Option ℕ := none
  sharedMemoryBorrowLimitMib : Option ℕ := none
  sharedMemoryResidentHeadroomMib : Option ℕ := none
  localMemoryCapacityMib : Option ℕ := none
  warmMemoryCapacityMib : ℕ := 0
  snapshotMechanism : SnapshotMechanism := .incrementalCow
  snapshotStorage : SnapshotStorage := .tiered
  lazyRestore : Bool := true
  coldSnapshotRoot : Option Text := none
  localNumaNode : Option ℕ := none
  localMemoryCgroup : Option Text := some "/sys/fs/cgroup/cube_sandbox/sandbox".toList
  warmNumaNode : Option ℕ := none
  memoryScheduling : MemoryScheduling := .static
  poolTransferConcurrency : ℕ := 1
  snapshotTransferConcurrency : Option ℕ := none
  memoryActionCosts : Option ActionCosts := none

def nodesRefused (nodes : List ComputeNode) (shared : Option ℕ) : Bool :=
  !((nodes.map ComputeNode.nodeId).Nodup ∧ (nodes.map ComputeNode.numaNode).Nodup ∧
    (∀ node ∈ nodes, some node.numaNode ≠ shared) ∧ nodes.Pairwise fun a b => Disjoint a.cpus b.cpus)

def truthy (n : Option ℕ) : Bool := n.any (· ≠ 0)

namespace Resources

/-- The bounds of single fields that the derived resources can meet or miss. -/
def fieldsRefused (r : Resources) : Bool :=
  r.poolMemoryBudgetMib = 0 || r.localMemoryCapacityMib = some 0 || r.localMemoryLowWatermarkMib = some 0 ||
    r.localMemoryHighWatermarkMib = some 0 || r.sharedMemoryResidentHeadroomMib = some 0

def borrows (r : Resources) : Bool := truthy r.sharedMemoryBorrowLimitMib

def earlyRefused (r : Resources) : Bool :=
  r.snapshotTransferConcurrency.any (r.poolTransferConcurrency < ·) ||
  r.residentCapacityAccounting && r.borrows ||
  r.sharedMemoryResidentHeadroomMib.isSome && !r.borrows ||
  r.sharedMemoryResidentHeadroomMib.any (r.warmMemoryCapacityMib ≤ ·) ||
  r.sharedMemoryResidentHeadroomMib.isSome && r.snapshotStorage = .warmOnly ||
  r.lifecycleReservationScale ≠ 1 && !r.residentCapacityAccounting ||
  r.residentCapacityAccounting && r.lifecycleAdmission ≠ .configuredCapacity ||
  r.snapshotMechanism = .incrementalCow && !r.lazyRestore ||
  r.lifecycleAdmission = .osManaged && r.proactiveCacheReclaim ||
  r.lifecycleAdmission = .osManaged &&
    (r.borrows || r.memoryScheduling = .joint || r.memoryScheduling = .snapshotOnly)

def sumOver (r : Resources) (f : ComputeNode → ℕ) : ℕ := (r.computeNodes.map f).sum

def nodesMismatch (r : Resources) : Bool :=
  !r.computeNodes.isEmpty &&
    (nodesRefused r.computeNodes r.warmNumaNode || r.localNumaNode.isSome || r.localMemoryCgroup.all (· = []) ||
      r.localMemoryCapacityMib.any (· ≠ r.sumOver ComputeNode.memoryCapacityMib) ||
      r.localMemoryLowWatermarkMib.any (· ≠ r.sumOver ComputeNode.lowWatermarkMib) ||
      r.localMemoryHighWatermarkMib.any (· ≠ r.sumOver ComputeNode.highWatermarkMib))

def withSums (r : Resources) : Resources :=
  if r.computeNodes.isEmpty then r
  else
    { r with
      localMemoryCapacityMib := some (r.sumOver ComputeNode.memoryCapacityMib)
      localMemoryLowWatermarkMib := some (r.sumOver ComputeNode.lowWatermarkMib)
      localMemoryHighWatermarkMib := some (r.sumOver ComputeNode.highWatermarkMib) }

def computeNodeBudgetMib (r : Resources) (node : ComputeNode) : ℕ :=
  if r.residentCapacityAccounting then node.memoryCapacityMib else node.highWatermarkMib

def watermarksOrdered (r : Resources) : Bool :=
  match r.localMemoryLowWatermarkMib, r.localMemoryHighWatermarkMib, r.localMemoryCapacityMib with
  | some low, some high, some hard => low < high && high < hard
  | _, _, _ => false

def budgetRefused (r : Resources) : Bool :=
  match r.sharedMemoryBorrowLimitMib with
  | some borrow =>
    !r.watermarksOrdered || r.warmNumaNode.isNone || r.localNumaNode.isNone && r.computeNodes.isEmpty ||
      r.warmNumaNode = r.localNumaNode || r.warmMemoryCapacityMib < borrow ||
      some r.poolMemoryBudgetMib ≠ r.localMemoryHighWatermarkMib
  | none =>
    if !r.computeNodes.isEmpty then r.poolMemoryBudgetMib ≠ r.sumOver r.computeNodeBudgetMib
    else (r.localMemoryLowWatermarkMib.isSome || r.localMemoryHighWatermarkMib.isSome) && !r.watermarksOrdered

def lateRefused (r : Resources) : Bool :=
  r.budgetRefused || r.localMemoryCapacityMib.any (· < r.poolMemoryBudgetMib) ||
    r.memoryActionCosts.isSome && r.memoryScheduling ≠ .joint && r.memoryScheduling ≠ .snapshotOnly ||
    r.memoryActionCosts.any fun c => r.snapshotStorage = .tiered &&
      (c.coldCheckpointSecondsPerGib.isNone || c.coldRestoreSecondsPerGib.isNone)

def validate (r : Resources) : Option Resources :=
  if r.fieldsRefused || r.earlyRefused || r.nodesMismatch || r.withSums.lateRefused then none else some r.withSums

def osManaged (r : Resources) : Resources :=
  let capacity := ((r.localMemoryCapacityMib.filter (· ≠ 0)).getD r.poolMemoryBudgetMib) +
    r.sharedMemoryBorrowLimitMib.getD 0
  { r with
    lifecycleAdmission := .osManaged
    proactiveCacheReclaim := false
    computeNodes := []
    localNumaNode := none
    localMemoryCapacityMib := some capacity
    poolMemoryBudgetMib := capacity
    localMemoryLowWatermarkMib := none
    localMemoryHighWatermarkMib := none
    sharedMemoryBorrowLimitMib := none
    warmMemoryCapacityMib := 0
    warmNumaNode := none
    memoryScheduling := .localOnly
    snapshotStorage := .tiered
    memoryActionCosts := none }

theorem capacity_pos {r : Resources} (h : r.fieldsRefused = false) : 0 < r.osManaged.poolMemoryBudgetMib := by
  simp only [fieldsRefused, Bool.or_eq_false_iff, decide_eq_false_iff_not] at h
  obtain ⟨⟨⟨⟨hpool, hcap⟩, -⟩, -⟩, -⟩ := h
  have hbase : 0 < (r.localMemoryCapacityMib.filter (· ≠ 0)).getD r.poolMemoryBudgetMib := by
    cases hc : r.localMemoryCapacityMib with
    | none => simpa using Nat.pos_of_ne_zero hpool
    | some n =>
      have hn : n ≠ 0 := by
        rintro rfl
        exact hcap hc
      rw [Option.filter_some, if_pos (by simpa using hn)]
      exact Nat.pos_of_ne_zero hn
  exact Nat.add_pos_left hbase _

theorem validate_isSome (r : Resources) : r.validate.isSome ↔ r.fieldsRefused = false ∧ r.earlyRefused = false ∧
    r.nodesMismatch = false ∧ r.withSums.lateRefused = false := by
  unfold validate
  split_ifs with h
  · simp only [Bool.or_eq_true] at h
    simp only [Option.isSome_none, Bool.false_eq_true, false_iff, not_and, Bool.not_eq_false]
    intro h₁ h₂ h₃
    simpa [h₁, h₂, h₃] using h
  · simpa [and_assoc] using h

theorem validate_osManaged {r : Resources} (h : r.validate.isSome) :
    r.osManaged.validate.isSome ↔
      r.sharedMemoryResidentHeadroomMib = none ∧ r.residentCapacityAccounting = false := by
  obtain ⟨hfields, hearly, -, -⟩ := (validate_isSome r).1 h
  have hpos := capacity_pos hfields
  rw [validate_isSome]
  simp only [earlyRefused, Bool.or_eq_false_iff] at hearly
  obtain ⟨⟨⟨⟨⟨⟨⟨⟨⟨htransfer, -⟩, -⟩, -⟩, -⟩, hscale⟩, -⟩, hlazy⟩, -⟩, -⟩ := hearly
  constructor
  · rintro ⟨-, hderived, -, -⟩
    simp only [earlyRefused, Bool.or_eq_false_iff] at hderived
    obtain ⟨⟨⟨⟨⟨⟨⟨⟨⟨-, -⟩, hheadroom⟩, -⟩, -⟩, -⟩, haccounting⟩, -⟩, -⟩, -⟩ := hderived
    constructor
    · cases hh : r.sharedMemoryResidentHeadroomMib with
      | none => rfl
      | some n => simp [osManaged, borrows, truthy, hh] at hheadroom
    · simpa [osManaged] using haccounting
  · rintro ⟨hheadroom, haccounting⟩
    refine ⟨?_, ?_, ?_, ?_⟩
    · have hcapacity : r.osManaged.localMemoryCapacityMib = some r.osManaged.poolMemoryBudgetMib := rfl
      have hne := Nat.pos_iff_ne_zero.1 hpos
      have hlow : r.osManaged.localMemoryLowWatermarkMib = none := rfl
      have hhigh : r.osManaged.localMemoryHighWatermarkMib = none := rfl
      have hsame : r.osManaged.sharedMemoryResidentHeadroomMib = none := hheadroom
      simp [fieldsRefused, hcapacity, hlow, hhigh, hsame, hne]
    · rw [haccounting] at hscale
      simp only [Bool.not_false, Bool.and_true, decide_eq_false_iff_not, not_not] at hscale
      have hlazy' : r.snapshotMechanism = .incrementalCow → r.lazyRestore = true := by simpa using hlazy
      simpa [earlyRefused, osManaged, borrows, truthy, hheadroom, haccounting, hscale, htransfer] using hlazy'
    · simp [nodesMismatch, osManaged]
    · simp [withSums, lateRefused, budgetRefused, osManaged]

end Resources

end ClawBox.Matrix
