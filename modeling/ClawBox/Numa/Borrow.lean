import ClawBox.Snapshot.PoolAccounting

namespace ClawBox.Numa

open Transition ClawBox.Snapshot

variable {τ : Type}

abbrev Leaf := ℕ

inductive Mems
  | localNode
  | sharedNode
  | other
  deriving DecidableEq

structure BorrowedAllocation where
  leaf : Leaf
  capacityBytes : ℤ
  parentSharedBytesBefore : ℤ
  deriving DecidableEq

inductive Cause
  | rollback
  | returnLocal
  | pinLocal
  | releaseDestroyed
  deriving DecidableEq

inductive Phase
  | idle
  | locating (reserve : Bool) (capacity : ℤ)
  | observing (reserve : Bool) (capacity : ℤ) (leaf : Leaf)
  | deciding (capacity : ℤ) (leaf : Leaf) (before : Mems)
  | measuring (capacity : ℤ) (leaf : Leaf)
  | reserving (capacity : ℤ) (leaf : Leaf) (parentShared : ℤ)
  | recording (capacity : ℤ) (leaf : Leaf) (parentShared : ℤ)
  | rebinding (reserve : Bool) (capacity : ℤ) (leaf : Leaf)
  | rollingBack (capacity : ℤ) (leaf : Leaf)
  | verifying (reserve : Bool) (capacity : ℤ) (leaf : Leaf)
  -- the borrowed capacity, or whether a return gave it back
  | settlingBorrow (capacity : ℤ)
  | settlingReturn (released : Bool)
  | releasing (cause : Cause)
  | dropping (cause : Cause)
  | pinLocating
  | pinChecking (leaf : Leaf) (retained : Bool)
  | pinMeasuring (leaf : Leaf)
  | inspecting (entry : BorrowedAllocation)
  deriving DecidableEq

inductive RebindResult
  | done
  | failed (rollbackSafe : Bool)
  deriving DecidableEq

/-- What `release_destroyed` finds: a read that fails, the leaf, or only its parent. -/
inductive Inspection
  | failed
  | leafPresent (populated : Bool) (shared : ℤ)
  | leafGone (parentShared : ℤ)
  deriving DecidableEq

inductive Event
  | running
  | returned
  | raised
  deriving DecidableEq

inductive Action (τ : Type)
  | pool (op : PoolOp τ)
  | spill (item : Victim)
  | borrow (v : Sandbox) (capacity : ℤ)
  | returnLocal (v : Sandbox)
  | pinLocal (v : Sandbox)
  | releaseDestroyed (v : Sandbox)
  | locate (v : Sandbox) (leaf : Option Leaf)
  | observe (v : Sandbox) (before : Option Mems)
  | decide (v : Sandbox)
  | parentShared (v : Sandbox) (shared : Option ℤ)
  | reserve (v : Sandbox)
  | record (v : Sandbox)
  | rebind (v : Sandbox) (result : RebindResult)
  | rollback (v : Sandbox) (leaf : Leaf) (mems : Option Mems) (shared : Option ℤ)
  | leafShared (v : Sandbox) (leaf : Leaf) (shared : Option ℤ)
  | release (v : Sandbox)
  | drop (v : Sandbox)
  | pinCheck (v : Sandbox) (ok : Bool)
  | inspect (v : Sandbox) (leaf : Leaf) (found : Inspection)

structure Borrower (τ : Type) where
  pool : Pool τ
  borrowed : PyDict Sandbox BorrowedAllocation := ∅
  phase : Sandbox → Phase := fun _ => .idle
  rebindLock : Option Sandbox := none

def Foreign : PoolOp τ → Bool
  | .reserveBorrow .. | .releaseBorrow _ | .observeSharedLive _ (some _) => false
  | _ => true

namespace Borrower

def setPhase (s : Borrower τ) (v : Sandbox) (x : Phase) : Borrower τ := { s with phase := Function.update s.phase v x }

def finish (s : Borrower τ) (v : Sandbox) : Borrower τ :=
  { s.setPhase v .idle with rebindLock := if s.rebindLock = some v then none else s.rebindLock }

def raised (s : Borrower τ) (v : Sandbox) : Option (Borrower τ × Event) := some (s.finish v, .raised)

def goto (s : Borrower τ) (v : Sandbox) (x : Phase) : Option (Borrower τ × Event) := some (s.setPhase v x, .running)

def borrow (s : Borrower τ) (v : Sandbox) (capacity : ℤ) : Option (Borrower τ × Event) :=
  if s.rebindLock.isSome ∨ capacity ≤ 0 then s.raised v
  else { s with rebindLock := some v }.goto v (.locating true capacity)

def returnLocal (s : Borrower τ) (v : Sandbox) : Option (Borrower τ × Event) :=
  match s.borrowed.get? v with
  | none => s.raised v
  | some entry =>
    if s.rebindLock = none then
      if entry.capacityBytes ≤ 0 then s.raised v
      else { s with rebindLock := some v }.goto v (.locating false entry.capacityBytes)
    else none

def releaseDestroyed (s : Borrower τ) (v : Sandbox) : Option (Borrower τ × Event) :=
  match s.borrowed.get? v with
  | none => some (s.finish v, .returned)
  | some entry => s.goto v (.inspecting entry)

def relocate (s : Borrower τ) (v : Sandbox) (leaf : Leaf) : Option (Borrower τ × Event) :=
  match s.borrowed.get? v with
  | none => s.goto v (.pinChecking leaf false)
  | some entry =>
    if entry.leaf ≠ leaf then
      { s with borrowed := s.borrowed.set v { entry with leaf } }.goto v (.pinChecking leaf true)
    else s.goto v (.pinChecking leaf true)

def decide (s : Borrower τ) (v : Sandbox) (capacity : ℤ) (leaf : Leaf) (before : Mems) : Option (Borrower τ × Event) :=
  match s.borrowed.get? v with
  | none => s.goto v (.measuring capacity leaf)
  | some entry =>
    if before ≠ .localNode ∨ entry.capacityBytes ≠ capacity ∨ entry.leaf ≠ leaf then s.raised v
    else s.goto v (.rebinding true capacity leaf)

def reserve (s : Borrower τ) (v : Sandbox) (capacity : ℤ) (leaf : Leaf) (parentShared : ℤ) :
    Option (Borrower τ × Event) :=
  match (Pool.reserveBorrow v capacity).run s.pool with
  | (.ok _, p) => { s with pool := p }.goto v (.recording capacity leaf parentShared)
  | (.error _, p) => { s with pool := p }.raised v

def rebind (s : Borrower τ) (v : Sandbox) (reserve : Bool) (capacity : ℤ) (leaf : Leaf) :
    RebindResult → Option (Borrower τ × Event)
  | .done => s.goto v (.verifying reserve capacity leaf)
  | .failed rollbackSafe => if reserve ∧ rollbackSafe then s.goto v (.rollingBack capacity leaf) else s.raised v

def verify (s : Borrower τ) (v : Sandbox) (reserve : Bool) (capacity : ℤ) : Option ℤ → Option (Borrower τ × Event)
  | none => s.raised v
  | some shared =>
    if reserve then s.goto v (.settlingBorrow capacity)
    else if shared = 0 then s.goto v (.releasing .returnLocal)
    else s.goto v (.settlingReturn false)

def settle (s : Borrower τ) (v : Sandbox) (settleBorrow : Option Sandbox) (released : Bool) :
    Option ℤ → Option (Borrower τ × Event)
  | none => s.raised v
  | some shared =>
    match (Pool.observeSharedLive shared settleBorrow).run s.pool with
    | (.error _, p) => { s with pool := p }.raised v
    | (.ok _, p) =>
      if released then { s with pool := p }.goto v (.dropping .returnLocal)
      else some ({ s with pool := p }.finish v, .returned)

/-- `return_local` drops its entry only after the observation that follows; the others at once. -/
def release (s : Borrower τ) (v : Sandbox) (cause : Cause) : Option (Borrower τ × Event) :=
  match (Pool.releaseBorrow v).run s.pool with
  | (.error _, p) => { s with pool := p }.raised v
  | (.ok _, p) =>
    { s with pool := p }.goto v (if cause = Cause.returnLocal then .settlingReturn true else .dropping cause)

def drop (s : Borrower τ) (v : Sandbox) (cause : Cause) : Option (Borrower τ × Event) :=
  some ({ s with borrowed := s.borrowed.pop v }.finish v, if cause = .rollback then .raised else .returned)

def unborrow (s : Borrower τ) (v : Sandbox) : Option ℤ → Option (Borrower τ × Event)
  | none => s.raised v
  | some shared => if shared = 0 then s.goto v (.releasing .pinLocal) else some (s.finish v, .returned)

def inspect (s : Borrower τ) (v : Sandbox) (entry : BorrowedAllocation) : Inspection → Option (Borrower τ × Event)
  | .failed => s.raised v
  | .leafPresent populated shared =>
    if populated ∨ shared ≠ 0 then s.raised v
    else s.goto v (.releasing .releaseDestroyed)
  | .leafGone parentShared =>
    if parentShared > entry.parentSharedBytesBefore then s.raised v
    else s.goto v (.releasing .releaseDestroyed)

-- Every cgroup read and every write is a step of its own, which may fail or report anything; the lock of the VM is
-- held throughout.
def next (s : Borrower τ) : Action τ → Option (Borrower τ × Event)
  | .pool op => if Foreign op then some ({ s with pool := (op.run s.pool).2 }, .running) else none
  | .spill item => some ({ s with pool := ((Pool.retireVictim item).run s.pool).2 }, .running)
  | .borrow v capacity => if s.phase v = .idle then s.borrow v capacity else none
  | .returnLocal v => if s.phase v = .idle then s.returnLocal v else none
  | .pinLocal v => if s.phase v = .idle then s.goto v .pinLocating else none
  | .releaseDestroyed v => if s.phase v = .idle then s.releaseDestroyed v else none
  | .locate v leaf =>
    match s.phase v, leaf with
    | .locating reserve capacity, some leaf => s.goto v (.observing reserve capacity leaf)
    | .pinLocating, some leaf => s.relocate v leaf
    | .locating _ _, none => s.raised v
    | .pinLocating, none => s.raised v
    | _, _ => none
  | .observe v before =>
    match s.phase v, before with
    | .observing true capacity leaf, some before => s.goto v (.deciding capacity leaf before)
    | .observing false capacity leaf, some _ => s.goto v (.rebinding false capacity leaf)
    | .observing _ _ _, none => s.raised v
    | _, _ => none
  | .decide v =>
    match s.phase v with
    | .deciding capacity leaf before => s.decide v capacity leaf before
    | _ => none
  | .parentShared v shared =>
    match s.phase v, shared with
    | .measuring capacity leaf, some shared => s.goto v (.reserving capacity leaf shared)
    | .measuring _ _, none => s.raised v
    | .settlingBorrow _, _ => s.settle v (some v) false shared
    | .settlingReturn released, _ => s.settle v none released shared
    | _, _ => none
  | .reserve v =>
    match s.phase v with
    | .reserving capacity leaf parentShared => s.reserve v capacity leaf parentShared
    | _ => none
  | .record v =>
    match s.phase v with
    | .recording capacity leaf parentShared =>
      { s with borrowed := s.borrowed.set v ⟨leaf, capacity, parentShared⟩ }.goto v (.rebinding true capacity leaf)
    | _ => none
  | .rebind v result =>
    match s.phase v with
    | .rebinding reserve capacity leaf => s.rebind v reserve capacity leaf result
    | _ => none
  | .rollback v leaf mems shared =>
    match s.phase v with
    | .rollingBack _ leaf' =>
      if leaf' = leaf then
        if mems = some .localNode ∧ shared = some 0 then s.goto v (.releasing .rollback) else s.raised v
      else none
    | _ => none
  | .leafShared v leaf shared =>
    match s.phase v with
    | .verifying reserve capacity leaf' => if leaf' = leaf then s.verify v reserve capacity shared else none
    | .pinMeasuring leaf' => if leaf' = leaf then s.unborrow v shared else none
    | _ => none
  | .release v =>
    match s.phase v with
    | .releasing cause => s.release v cause
    | _ => none
  | .drop v =>
    match s.phase v with
    | .dropping cause => s.drop v cause
    | _ => none
  | .pinCheck v ok =>
    match s.phase v with
    | .pinChecking leaf retained =>
      if ok then (if retained then s.goto v (.pinMeasuring leaf) else some (s.finish v, .returned)) else s.raised v
    | _ => none
  | .inspect v leaf found =>
    match s.phase v with
    | .inspecting entry => if entry.leaf = leaf then s.inspect v entry found else none
    | _ => none

def Start (s : Borrower τ) : Prop :=
  ∃ capacity borrowCapacity headroom sharedLive warm snapshotAware p,
    Pool.new capacity borrowCapacity headroom sharedLive warm snapshotAware = .ok p ∧ s = { pool := p }

def system : System (Borrower τ) (Action τ × Event) := .ofNext Start next

end Borrower

end ClawBox.Numa
