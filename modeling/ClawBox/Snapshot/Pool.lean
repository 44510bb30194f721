import ClawBox.Lib.PyDict
import ClawBox.Lib.Raising
import ClawBox.Lib.Transition

namespace ClawBox.Snapshot

open Transition

-- a Python string: the empty one is the only one that is treated apart
abbrev Sandbox := List Char
abbrev Spiller := ℕ

structure SnapshotKey where
  sessionId : ℕ
  role : ℕ
  generation : ℤ
  deriving DecidableEq

-- Seconds are only compared, added and divided, so their type is a parameter.
structure Manifest (τ : Type) where
  ident : ℕ
  key : SnapshotKey
  allocatedBytes : ℤ
  lastUsed : τ
  pinned : ℤ := 0
  retainedByVm : Bool := false
  retentionValue : τ
  deriving DecidableEq

inductive PoolError
  | emptySandboxId
  | boundNotPositive
  | duplicateBorrow (sandbox : Sandbox)
  | borrowCapacityExceeded
  | sharedCapacityExceeded
  | unknownBorrow (sandbox : Sandbox)
  | negativeSharedLive
  | tooLarge
  | duplicateGeneration (key : SnapshotKey)
  | requiresSpill
  | negativeByteCount
  | invalidPredecessor
  | notReserved (key : SnapshotKey)
  | exceedsReservation
  | accountingInvariantViolated
  | negativeRequired
  | noSpillablePrefix
  | admissionRejected
  | noSpillPath (key : SnapshotKey)
  | spillIdentityChanged (key : SnapshotKey)
  | spillerFailed
  | keyError (key : SnapshotKey)
  | pinUnderflow (key : SnapshotKey)
  | removePinned (key : SnapshotKey)
  | badConfiguration
  deriving DecidableEq

/-- The `WarmCapacityError`s that `reserve_for_admission` waits on; its two subclasses are re-raised. -/
def PoolError.isCapacity : PoolError → Bool
  | .borrowCapacityExceeded | .sharedCapacityExceeded | .requiresSpill | .noSpillablePrefix | .noSpillPath _ => true
  | _ => false

structure Pool (τ : Type) where
  capacityBytes : ℤ
  borrowCapacityBytes : ℤ
  borrowResidentHeadroomBytes : Option ℤ
  externalSharedLiveBytes : ℤ
  externalWarmBytes : ℤ
  snapshotAware : Bool
  observedSharedLiveBytes : ℤ
  reservations : PyDict SnapshotKey ℤ := ∅
  borrowReservations : PyDict Sandbox ℤ := ∅
  unobservedBorrows : PySet Sandbox := (∅ : PyDict Sandbox Unit)
  manifests : PyDict SnapshotKey (Manifest τ) := ∅
  spillers : PyDict SnapshotKey Spiller := ∅
  nextIdent : ℕ := 0

abbrev PoolM (τ : Type) := Raising (Pool τ) PoolError

namespace Pool

open Raising

variable {τ : Type}

def new (capacity borrowCapacity : ℤ) (headroom : Option ℤ) (sharedLive warm : ℤ) (snapshotAware : Bool) :
    Except PoolError (Pool τ) :=
  if capacity < 0 ∨ borrowCapacity < 0 ∨ capacity < borrowCapacity then .error .badConfiguration
  else if ∃ h ∈ headroom, ¬ (0 < h ∧ h < capacity) ∨ borrowCapacity = 0 then .error .badConfiguration
  else if sharedLive < 0 ∨ warm < 0 ∨ capacity < sharedLive + warm then .error .badConfiguration
  else .ok {
    capacityBytes := capacity
    borrowCapacityBytes := borrowCapacity
    borrowResidentHeadroomBytes := headroom
    externalSharedLiveBytes := sharedLive
    externalWarmBytes := warm
    snapshotAware := snapshotAware
    observedSharedLiveBytes := sharedLive }

def externalOccupiedBytes (p : Pool τ) : ℤ := p.externalSharedLiveBytes + p.externalWarmBytes

def borrowedBytes (p : Pool τ) : ℤ := p.borrowReservations.sum fun _ b => b

def reservedBytes (p : Pool τ) : ℤ := p.reservations.sum fun _ b => b

def committedBytes (p : Pool τ) : ℤ := p.manifests.sum fun _ m => m.allocatedBytes

def pendingBorrowBytes (p : Pool τ) : ℤ := p.unobservedBorrows.sum fun id _ => (p.borrowReservations.get? id).getD 0

def borrowCharge (p : Pool τ) : ℤ :=
  match p.borrowResidentHeadroomBytes with
  | none => p.externalSharedLiveBytes + p.borrowedBytes
  | some headroom =>
    max p.externalSharedLiveBytes p.observedSharedLiveBytes +
      (if p.borrowReservations.entries = [] then 0 else headroom) + p.pendingBorrowBytes

def usage (p : Pool τ) : ℤ := p.externalWarmBytes + p.borrowCharge + p.reservedBytes + p.committedBytes

def assertCapacity : PoolM τ Unit := do
  let p ← get
  if p.usage > p.capacityBytes ∧ p.borrowResidentHeadroomBytes = none then raise .accountingInvariantViolated

def firstBorrowHeadroom (p : Pool τ) : ℤ :=
  match p.borrowResidentHeadroomBytes with
  | some headroom => if p.borrowReservations.entries = [] then headroom else 0
  | none => 0

def reserveBorrow (sandbox : Sandbox) (upperBound : ℤ) : PoolM τ Unit := do
  if sandbox = [] then raise .emptySandboxId
  if upperBound ≤ 0 then raise .boundNotPositive
  let p ← get
  if (p.borrowReservations.get? sandbox).isSome then raise (.duplicateBorrow sandbox)
  if p.borrowedBytes + upperBound > p.borrowCapacityBytes then raise .borrowCapacityExceeded
  if p.usage + upperBound + p.firstBorrowHeadroom > p.capacityBytes then raise .sharedCapacityExceeded
  modify fun p => { p with
    borrowReservations := p.borrowReservations.set sandbox upperBound
    unobservedBorrows := p.unobservedBorrows.add sandbox }
  assertCapacity

def releaseBorrow (sandbox : Sandbox) : PoolM τ ℤ := do
  match (← get).borrowReservations.get? sandbox with
  | none => raise (.unknownBorrow sandbox)
  | some released =>
    modify fun p => { p with
      borrowReservations := p.borrowReservations.pop sandbox
      unobservedBorrows := p.unobservedBorrows.discard sandbox }
    pure released

def observeSharedLive (sharedLive : ℤ) (settleBorrow : Option Sandbox) : PoolM τ ℤ := do
  if sharedLive < 0 then raise .negativeSharedLive
  modify fun p => { p with observedSharedLiveBytes := sharedLive }
  match settleBorrow with
  | some sandbox => modify fun p => { p with unobservedBorrows := p.unobservedBorrows.discard sandbox }
  | none => pure ()
  let p ← get
  pure (max 0 (p.usage - p.capacityBytes))

def reserve (key : SnapshotKey) (upperBound : ℤ) : PoolM τ Unit := do
  if upperBound ≤ 0 then raise .boundNotPositive
  let p ← get
  if upperBound > p.capacityBytes - p.externalOccupiedBytes then raise .tooLarge
  if (p.reservations.get? key).isSome ∨ (p.manifests.get? key).isSome then raise (.duplicateGeneration key)
  if p.usage + upperBound > p.capacityBytes then raise .requiresSpill
  modify fun p => { p with reservations := p.reservations.set key upperBound }
  assertCapacity

structure CommitArgs (τ : Type) where
  key : SnapshotKey
  logicalBytes : ℤ
  allocatedBytes : ℤ
  transferredBytes : Option ℤ
  spiller : Option Spiller := none
  replaces : Option SnapshotKey := none
  retentionValue : τ
  -- what the clock reads
  now : τ

def predecessor (p : Pool τ) (key : SnapshotKey) : Option SnapshotKey → Except PoolError (Option (Manifest τ))
  | none => .ok none
  | some old =>
    match p.manifests.get? old with
    | none => .error .invalidPredecessor
    | some m =>
      if m.retainedByVm = false ∨ m.pinned ≠ 0 ∨ old.sessionId ≠ key.sessionId ∨ old.role ≠ key.role ∨
        key.generation ≤ old.generation then .error .invalidPredecessor
      else .ok (some m)

def retire (key : SnapshotKey) : PoolM τ Unit :=
  modify fun p => { p with manifests := p.manifests.pop key, spillers := p.spillers.pop key }

def publish (a : CommitArgs τ) : PoolM τ Unit :=
  modify fun p => { p with
    manifests := p.manifests.set a.key
      { ident := p.nextIdent, key := a.key, allocatedBytes := a.allocatedBytes, lastUsed := a.now,
        retentionValue := a.retentionValue }
    nextIdent := p.nextIdent + 1 }

def commit (a : CommitArgs τ) : PoolM τ Unit := do
  if a.logicalBytes < 0 ∨ a.allocatedBytes < 0 ∨ ∃ b ∈ a.transferredBytes, b < 0 then raise .negativeByteCount
  match (← get).predecessor a.key a.replaces with
  | .error e => raise e
  | .ok old =>
    match (← get).reservations.get? a.key with
    | none => raise (.notReserved a.key)
    | some reserved =>
      modify fun p => { p with reservations := p.reservations.pop a.key }
      if a.allocatedBytes > reserved + (old.map (·.allocatedBytes)).getD 0 then
        modify fun p => { p with reservations := p.reservations.set a.key reserved }
        raise .exceedsReservation
      publish a
      match a.replaces with
      | some k => retire k
      | none => pure ()
      match a.spiller with
      | some spiller => modify fun p => { p with spillers := p.spillers.set a.key spiller }
      | none => pure ()
      assertCapacity

def abort (key : SnapshotKey) : PoolM τ Unit := modify fun p => { p with reservations := p.reservations.pop key }

def lookup (key : SnapshotKey) : PoolM τ (Manifest τ) := do
  match (← get).manifests.get? key with
  | none => raise (.keyError key)
  | some item => pure item

def store (key : SnapshotKey) (item : Manifest τ) : PoolM τ Unit :=
  modify fun p => { p with manifests := p.manifests.set key item }

def pin (key : SnapshotKey) : PoolM τ Unit := do
  let item ← lookup key
  store key { item with pinned := item.pinned + 1 }

def unpin (key : SnapshotKey) : PoolM τ Unit := do
  let item ← lookup key
  if item.pinned ≤ 0 then raise (.pinUnderflow key)
  store key { item with pinned := item.pinned - 1 }

def touch (key : SnapshotKey) (now : τ) : PoolM τ Unit := do
  let item ← lookup key
  store key { item with lastUsed := now }

def retainForVm (key : SnapshotKey) : PoolM τ Unit := do
  let item ← lookup key
  store key { item with retainedByVm := true }

def remove (key : SnapshotKey) (consumePinned : Bool) : PoolM τ Unit := do
  let item ← lookup key
  if item.pinned ≠ (if consumePinned then 1 else 0) then raise (.removePinned key)
  retire key

end Pool

inductive PoolOp (τ : Type)
  | reserveBorrow (sandbox : Sandbox) (upperBound : ℤ)
  | releaseBorrow (sandbox : Sandbox)
  | observeSharedLive (sharedLive : ℤ) (settleBorrow : Option Sandbox)
  | reserve (key : SnapshotKey) (upperBound : ℤ)
  | commit (args : Pool.CommitArgs τ)
  | abort (key : SnapshotKey)
  | pin (key : SnapshotKey)
  | unpin (key : SnapshotKey)
  | touch (key : SnapshotKey) (now : τ)
  | retainForVm (key : SnapshotKey)
  | remove (key : SnapshotKey) (consumePinned : Bool)

def PoolOp.body {τ : Type} : PoolOp τ → PoolM τ Unit
  | .reserveBorrow sandbox upperBound => Pool.reserveBorrow sandbox upperBound
  | .releaseBorrow sandbox => do let _ ← Pool.releaseBorrow sandbox
  | .observeSharedLive sharedLive settleBorrow => do let _ ← Pool.observeSharedLive sharedLive settleBorrow
  | .reserve key upperBound => Pool.reserve key upperBound
  | .commit args => Pool.commit args
  | .abort key => Pool.abort key
  | .pin key => Pool.pin key
  | .unpin key => Pool.unpin key
  | .touch key now => Pool.touch key now
  | .retainForVm key => Pool.retainForVm key
  | .remove key consumePinned => Pool.remove key consumePinned

def PoolOp.run {τ : Type} (op : PoolOp τ) (p : Pool τ) : Except PoolError Unit × Pool τ := op.body.run p

end ClawBox.Snapshot
