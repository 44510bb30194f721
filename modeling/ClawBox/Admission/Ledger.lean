import ClawBox.Lib.PyDict
import ClawBox.Lib.Raising
import ClawBox.Lib.Transition

namespace ClawBox.Admission

-- session ids, scopes and sampler objects are only compared with each other
abbrev Session := ℕ
abbrev Scope := ℕ
abbrev Sampler := ℕ

inductive WaitClass
  | toolAdmission
  | create
  | restore
  deriving DecidableEq

abbrev Key := Session × WaitClass

abbrev Reading := Option (ℤ × ℤ)

structure Claim where
  ident : ℕ
  scope : Scope
  amount : ℤ
  localAmount : ℤ
  sample : Option Sampler
  baseline : ℤ × ℤ
  deriving DecidableEq

def Claim.localIn (c : Claim) (s : Scope) : ℤ := if c.scope = s then c.localAmount else 0

structure DemandLedger where
  capacity : ℤ
  freeFloor : ℤ
  margin : ℤ
  congested : Bool := false
  claims : PyDict Key Claim := ∅
  pendingAmount : ℤ := 0
  pendingLocalByScope : PyDict Scope ℤ := ∅
  nextIdent : ℕ := 0
  deriving DecidableEq

inductive LedgerError
  | capacityNotPositive
  | accountingUnderflow
  | duplicateClaim (key : Key)
  | missingClaim (key : Key)
  | negativeRelease
  | releaseExceedsClaim (key : Key)
  | samplerFailed
  deriving DecidableEq

def DemandLedger.new (capacity freeFloor margin : ℤ) : Except LedgerError DemandLedger :=
  if capacity ≤ 0 then .error .capacityNotPositive else .ok { capacity, freeFloor, margin }

abbrev LedgerM := Raising DemandLedger LedgerError

namespace DemandLedger

open Raising

def pendingUpperBound (L : DemandLedger) : Option Scope → ℤ
  | none => L.pendingAmount
  | some s => (L.pendingLocalByScope.get? s).getD 0

def adjustPendingUpperBound (scope : Scope) (amountDelta localDelta : ℤ) : LedgerM Unit := do
  modify fun L => { L with pendingAmount := L.pendingAmount + amountDelta }
  let L ← get
  let inScope := (L.pendingLocalByScope.get? scope).getD 0 + localDelta
  if L.pendingAmount < 0 ∨ inScope < 0 then raise .accountingUnderflow
  if inScope ≠ 0 then modify fun L => { L with pendingLocalByScope := L.pendingLocalByScope.set scope inScope }
  else modify fun L => { L with pendingLocalByScope := L.pendingLocalByScope.pop scope }

def callSampler (reading : Reading) : LedgerM (ℤ × ℤ) :=
  match reading with
  | none => raise .samplerFailed
  | some value => pure value

def firstBaseline (sample : Option Sampler) (reading : Reading) : LedgerM (ℤ × ℤ) :=
  match sample with
  | none => pure (0, 0)
  | some _ => callSampler reading

def add (key : Key) (scope : Scope) (amount localAmount : ℤ) (sample : Option Sampler) (reading : Reading) :
    LedgerM Unit := do
  if ((← get).claims.get? key).isSome then raise (.duplicateClaim key)
  let baseline ← firstBaseline sample reading
  modify fun L => { L with
    claims := L.claims.set key ⟨L.nextIdent, scope, amount, localAmount, sample, baseline⟩
    nextIdent := L.nextIdent + 1 }
  adjustPendingUpperBound scope amount localAmount

def setClaim (key : Key) (c : Claim) : LedgerM Unit := modify fun L => { L with claims := L.claims.set key c }

def extend (key : Key) (amount localAmount : ℤ) : LedgerM Unit := do
  match (← get).claims.get? key with
  | none => raise (.missingClaim key)
  | some claim =>
    setClaim key { claim with amount := claim.amount + amount, localAmount := claim.localAmount + localAmount }
    adjustPendingUpperBound claim.scope amount localAmount

def releaseAmount (key : Key) (amount localAmount : ℤ) : LedgerM Unit := do
  match (← get).claims.get? key with
  | none => raise (.missingClaim key)
  | some claim =>
    if amount < 0 ∨ localAmount < 0 then raise .negativeRelease
    if amount > claim.amount ∨ localAmount > claim.localAmount then raise (.releaseExceedsClaim key)
    adjustPendingUpperBound claim.scope (-amount) (-localAmount)
    setClaim key { claim with amount := claim.amount - amount, localAmount := claim.localAmount - localAmount }
    if claim.amount - amount = 0 ∧ claim.localAmount - localAmount = 0 then
      modify fun L => { L with claims := L.claims.pop key }

def release (key : Key) : LedgerM Unit := do
  let claim := (← get).claims.get? key
  modify fun L => { L with claims := L.claims.pop key }
  match claim with
  | none => pure ()
  | some claim => adjustPendingUpperBound claim.scope (-claim.amount) (-claim.localAmount)

def rebase (key : Key) (reading : Reading) : LedgerM Unit := do
  match (← get).claims.get? key with
  | none => pure ()
  | some claim =>
    if claim.sample.isSome then
      let baseline ← callSampler reading
      setClaim key { claim with baseline }

end DemandLedger

-- The callers hold the shared condition around every operation, so `notify_all` has no effect here.
inductive LedgerOp
  | add (key : Key) (scope : Scope) (amount localAmount : ℤ) (sample : Option Sampler) (reading : Reading)
  | extend (key : Key) (amount localAmount : ℤ)
  | releaseAmount (key : Key) (amount localAmount : ℤ)
  | release (key : Key)
  | rebase (key : Key) (reading : Reading)
  deriving DecidableEq

def LedgerOp.body : LedgerOp → LedgerM Unit
  | .add key scope amount localAmount sample reading => DemandLedger.add key scope amount localAmount sample reading
  | .extend key amount localAmount => DemandLedger.extend key amount localAmount
  | .releaseAmount key amount localAmount => DemandLedger.releaseAmount key amount localAmount
  | .release key => DemandLedger.release key
  | .rebase key reading => DemandLedger.rebase key reading

def LedgerOp.run (op : LedgerOp) (L : DemandLedger) : Except LedgerError Unit × DemandLedger := op.body.run L

def LedgerOp.NonNegative : LedgerOp → Prop
  | .add _ _ amount localAmount _ _ => 0 ≤ amount ∧ 0 ≤ localAmount
  | .extend _ amount localAmount => 0 ≤ amount ∧ 0 ≤ localAmount
  | _ => True

instance : DecidablePred LedgerOp.NonNegative
  | .add _ _ amount localAmount _ _ => inferInstanceAs (Decidable (0 ≤ amount ∧ 0 ≤ localAmount))
  | .extend _ amount localAmount => inferInstanceAs (Decidable (0 ≤ amount ∧ 0 ≤ localAmount))
  | .releaseAmount _ _ _ => isTrue trivial
  | .release _ => isTrue trivial
  | .rebase _ _ => isTrue trivial

def execute (L : DemandLedger) (ops : List LedgerOp) : DemandLedger := ops.foldl (fun L op => (op.run L).2) L

end ClawBox.Admission
