import ClawBox.Snapshot.Pool
import Mathlib.Data.List.Sort
import Mathlib.Data.Prod.Lex

namespace ClawBox.Snapshot

open Transition

variable {τ : Type}

structure SpillArgs (τ : Type) where
  requiredBytes : ℤ
  exclude : List SnapshotKey := []
  -- `none` is `float("inf")`
  candidateValue : Option τ

structure Victim where
  key : SnapshotKey
  ident : ℕ
  deriving DecidableEq

def victimLe [LinearOrder τ] (density : τ → ℤ → τ) (snapshotAware : Bool) (a b : Manifest τ) : Bool :=
  let key := fun m : Manifest τ => toLex (m.lastUsed, toLex (m.key.sessionId, toLex (m.key.role, m.key.generation)))
  if snapshotAware then
    toLex (density a.retentionValue (max 1 a.allocatedBytes), key a) ≤
      toLex (density b.retentionValue (max 1 b.allocatedBytes), key b)
  else key a ≤ key b

def takeVictims (deficit : ℤ) : ℤ → List (Manifest τ) → List (Manifest τ) × ℤ
  | reclaimed, [] => ([], reclaimed)
  | reclaimed, m :: rest =>
    if reclaimed + m.allocatedBytes ≥ deficit then ([m], reclaimed + m.allocatedBytes)
    else ((m :: (takeVictims deficit (reclaimed + m.allocatedBytes) rest).1),
      (takeVictims deficit (reclaimed + m.allocatedBytes) rest).2)

namespace Pool

def checkRequired (p : Pool τ) (required : ℤ) : Option (Except PoolError Unit) :=
  if required < 0 then some (.error .negativeRequired)
  else if required = 0 ∧ p.usage ≤ p.capacityBytes then some (.ok ())
  else if required > p.capacityBytes then some (.error .tooLarge)
  else if required > 0 ∧ required > p.capacityBytes - p.externalOccupiedBytes then some (.error .tooLarge)
  else none

def candidates [LinearOrder τ] (density : τ → ℤ → τ) (p : Pool τ) (exclude : List SnapshotKey) : List (Manifest τ) :=
  (p.manifests.values.filter fun m => m.key ∉ exclude ∧ m.pinned = 0 ∧ m.retainedByVm = false).insertionSort
    fun a b => victimLe density p.snapshotAware a b

def pinAll (p : Pool τ) (victims : List (Manifest τ)) : Pool τ :=
  { p with manifests := p.manifests.mapValues fun k m =>
      if ⟨k, m.ident⟩ ∈ victims.map (fun v => Victim.mk v.key v.ident) then { m with pinned := m.pinned + 1 } else m }

def lruVictims [LinearOrder τ] [Add τ] [Zero τ] (density : τ → ℤ → τ) (p : Pool τ) (a : SpillArgs τ) :
    Except PoolError (List (Manifest τ)) :=
  let deficit := max 0 (p.usage + a.requiredBytes - p.capacityBytes)
  if deficit = 0 then .ok []
  else
    let (victims, reclaimed) := takeVictims deficit 0 (p.candidates density a.exclude)
    if reclaimed < deficit then .error .noSpillablePrefix
    else if p.snapshotAware ∧ ∃ v ∈ a.candidateValue, v ≤ (victims.map (·.retentionValue)).foldl (· + ·) 0 then
      .error .admissionRejected
    else .ok victims

/-- The `finally` of a spill. A victim that left the pool keeps its pin, which nobody reads. -/
def unpinAll (p : Pool τ) (victims : List Victim) : Pool τ :=
  { p with manifests := p.manifests.mapValues fun k m =>
      if ⟨k, m.ident⟩ ∈ victims ∧ m.pinned > 0 then { m with pinned := m.pinned - 1 } else m }

open Raising in
def retireVictim (item : Victim) : PoolM τ Unit := do
  match (← get).manifests.get? item.key with
  | none => raise (.spillIdentityChanged item.key)
  | some current =>
    if current.ident ≠ item.ident ∨ current.pinned ≠ 1 then raise (.spillIdentityChanged item.key)
    retire item.key
    assertCapacity

end Pool

inductive Caller (τ : Type)
  | spillForAdmission (args : SpillArgs τ)
  | spillObservedExcess
  | reserveForAdmission (key : SnapshotKey) (upperBound : ℤ) (value : τ)

def Caller.args : Caller τ → SpillArgs τ
  | .spillForAdmission args => args
  | .spillObservedExcess => { requiredBytes := 0, candidateValue := none }
  | .reserveForAdmission key upperBound value =>
    { requiredBytes := upperBound, exclude := [key], candidateValue := some value }

inductive Thread (τ : Type)
  | idle
  | selecting (caller : Caller τ)
  | spilling (caller : Caller τ) (victims todo : List Victim)
  | relocating (caller : Caller τ) (victims : List Victim) (item : Victim) (todo : List Victim)
  | relocated (caller : Caller τ) (victims : List Victim) (item : Victim) (todo : List Victim)
  | unpinning (caller : Caller τ) (victims : List Victim) (result : Except PoolError Unit)
  | reserving (key : SnapshotKey) (upperBound : ℤ) (value : τ)
  | waiting (key : SnapshotKey) (upperBound : ℤ) (value : τ) (error : PoolError)

inductive Outcome
  | running
  | spilled (bytes : ℤ)
  | returned
  | raised (e : PoolError)
  deriving DecidableEq

def Outcome.of : Except PoolError Unit → Outcome
  | .ok _ => .returned
  | .error e => .raised e

structure Runtime (τ : Type) where
  pool : Pool τ
  threads : ℕ → Thread τ := fun _ => .idle
  admissionLock : Option ℕ := none

inductive Action (τ : Type)
  | op (op : PoolOp τ)
  | enterGuard (key : SnapshotKey)
  | leaveGuard (item : Victim)
  | start (th : ℕ) (caller : Caller τ)
  | select (th : ℕ)
  | advance (th : ℕ)
  | relocate (th : ℕ) (ok : Bool)
  | retire (th : ℕ)
  | unpin (th : ℕ)
  | reserve (th : ℕ)
  | retry (th : ℕ)
  | giveUp (th : ℕ)

namespace Runtime

def setThread (s : Runtime τ) (th : ℕ) (x : Thread τ) : Runtime τ :=
  { s with threads := Function.update s.threads th x }

def leave (s : Runtime τ) (th : ℕ) : Runtime τ := { s.setThread th .idle with admissionLock := none }

def handle (s : Runtime τ) (th : ℕ) (key : SnapshotKey) (upperBound : ℤ) (value : τ) (e : PoolError) :
    Runtime τ × Outcome :=
  if e.isCapacity then ({ s.setThread th (.waiting key upperBound value e) with admissionLock := none }, .running)
  else (s.leave th, .raised e)

def settle (s : Runtime τ) (th : ℕ) (caller : Caller τ) (result : Except PoolError Unit) : Runtime τ × Outcome :=
  match caller, result with
  | .spillForAdmission _, _ => (s.setThread th .idle, .of result)
  | .spillObservedExcess, _ => (s.leave th, .of result)
  | .reserveForAdmission key upperBound value, .ok _ => (s.setThread th (.reserving key upperBound value), .running)
  | .reserveForAdmission key upperBound value, .error e => s.handle th key upperBound value e

def enter (s : Runtime τ) (th : ℕ) (caller : Caller τ) : Runtime τ × Outcome :=
  match s.pool.checkRequired caller.args.requiredBytes with
  | none => (s.setThread th (.selecting caller), .running)
  | some (.ok _) => (s.setThread th (.spilling caller [] []), .running)
  | some (.error e) => s.settle th caller (.error e)

def start (s : Runtime τ) (th : ℕ) (caller : Caller τ) : Option (Runtime τ × Outcome) :=
  match caller with
  | .spillForAdmission _ => some (s.enter th caller)
  | _ => if s.admissionLock = none then some ({ s with admissionLock := some th }.enter th caller) else none

def select [LinearOrder τ] [Add τ] [Zero τ] (density : τ → ℤ → τ) (s : Runtime τ) (th : ℕ) (caller : Caller τ) :
    Runtime τ × Outcome :=
  match s.pool.lruVictims density caller.args with
  | .error e => s.settle th caller (.error e)
  | .ok victims =>
    let items := victims.map fun m => ⟨m.key, m.ident⟩
    ({ s.setThread th (.spilling caller items items) with pool := s.pool.pinAll victims }, .running)

def advance (s : Runtime τ) (th : ℕ) (caller : Caller τ) (victims : List Victim) : List Victim → Runtime τ
  | [] => s.setThread th (.unpinning caller victims (.ok ()))
  | item :: todo =>
    match s.pool.spillers.get? item.key with
    | none => s.setThread th (.unpinning caller victims (.error (.noSpillPath item.key)))
    | some _ => s.setThread th (.relocating caller victims item todo)

def retire (s : Runtime τ) (th : ℕ) (caller : Caller τ) (victims : List Victim) (item : Victim) (todo : List Victim) :
    Runtime τ × Outcome :=
  match (Pool.retireVictim item).run s.pool with
  | (.error e, p) => ({ s.setThread th (.unpinning caller victims (.error e)) with pool := p }, .running)
  | (.ok _, p) => ({ s.setThread th (.spilling caller victims todo) with pool := p },
      .spilled (((s.pool.manifests.get? item.key).map (·.allocatedBytes)).getD 0))

def reserve (s : Runtime τ) (th : ℕ) (key : SnapshotKey) (upperBound : ℤ) (value : τ) : Runtime τ × Outcome :=
  match (Pool.reserve key upperBound).run s.pool with
  | (.ok _, p) => ({ s.leave th with pool := p }, .returned)
  | (.error e, p) => { s with pool := p }.handle th key upperBound value e

def next [LinearOrder τ] [Add τ] [Zero τ] (density : τ → ℤ → τ) (s : Runtime τ) :
    Action τ → Option (Runtime τ × Outcome)
  | .op op => some ({ s with pool := (op.run s.pool).2 }, .of (op.run s.pool).1)
  | .enterGuard key =>
    match s.pool.manifests.get? key with
    | none => some (s, .returned)
    | some m =>
      if m.pinned = 0 then
        some ({ s with pool := ((Pool.store key { m with pinned := m.pinned + 1 }).run s.pool).2 }, .returned)
      else none
  | .leaveGuard item =>
    match s.pool.manifests.get? item.key with
    | none => some (s, .returned)
    | some m =>
      if m.ident = item.ident then
        some ({ s with pool := ((Pool.store item.key { m with pinned := m.pinned - 1 }).run s.pool).2 }, .returned)
      else some (s, .returned)
  | .start th caller =>
    match s.threads th with
    | .idle => s.start th caller
    | _ => none
  | .select th =>
    match s.threads th with
    | .selecting caller => some (s.select density th caller)
    | _ => none
  | .advance th =>
    match s.threads th with
    | .spilling caller victims todo => some (s.advance th caller victims todo, .running)
    | _ => none
  | .relocate th ok =>
    match s.threads th with
    | .relocating caller victims item todo =>
      some (s.setThread th (if ok then .relocated caller victims item todo
        else .unpinning caller victims (.error .spillerFailed)), .running)
    | _ => none
  | .retire th =>
    match s.threads th with
    | .relocated caller victims item todo => some (s.retire th caller victims item todo)
    | _ => none
  | .unpin th =>
    match s.threads th with
    | .unpinning caller victims result => some ({ s with pool := s.pool.unpinAll victims }.settle th caller result)
    | _ => none
  | .reserve th =>
    match s.threads th with
    | .reserving key upperBound value => some (s.reserve th key upperBound value)
    | _ => none
  | .retry th =>
    match s.threads th with
    | .waiting key upperBound value _ => s.start th (.reserveForAdmission key upperBound value)
    | _ => none
  | .giveUp th =>
    match s.threads th with
    | .waiting _ _ _ e => some (s.setThread th .idle, .raised e)
    | _ => none

def Start (s : Runtime τ) : Prop :=
  ∃ capacity borrowCapacity headroom sharedLive warm snapshotAware p,
    Pool.new capacity borrowCapacity headroom sharedLive warm snapshotAware = .ok p ∧ s = { pool := p }

def system [LinearOrder τ] [Add τ] [Zero τ] (density : τ → ℤ → τ) : System (Runtime τ) (Action τ × Outcome) :=
  .ofNext Start (next density)

end Runtime

end ClawBox.Snapshot
