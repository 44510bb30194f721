import ClawBox.Admission.LedgerAccounting

namespace ClawBox.Admission

open Transition

def Claim.remaining (c : Claim) (reading : Reading) : Reading :=
  match c.sample with
  | none => some (c.amount, c.localAmount)
  | some _ => reading.map fun r =>
      (max 0 (c.amount - max 0 (r.1 - c.baseline.1)), max 0 (c.localAmount - max 0 (r.2 - c.baseline.2)))

structure Sampled where
  frozen : Claim
  reading : Reading
  deriving DecidableEq

def Sampled.value (m : Sampled) : Reading := m.frozen.remaining m.reading

abbrev Measured := PyDict Key Sampled

def charge (measured : Measured) (key : Key) (claim : Claim) : Reading :=
  match measured.get? key with
  | none => some (claim.amount, claim.localAmount)
  | some m =>
    if m.frozen.ident ≠ claim.ident ∨ m.frozen.baseline ≠ claim.baseline ∨ m.frozen.sample ≠ claim.sample then
      some (claim.amount, claim.localAmount)
    else m.value.map fun v => (max 0 (claim.amount - (m.frozen.amount - v.1)),
      max 0 (claim.localAmount - (m.frozen.localAmount - v.2)))

def DemandLedger.pendingFromObservation (L : DemandLedger) (scope : Scope) (measured : Measured) : Reading :=
  L.claims.entries.foldlM (fun acc e => (charge measured e.1 e.2).map fun r =>
    (acc.1 + r.1, if e.2.scope = scope then acc.2 + r.2 else acc.2)) (0, 0)

def DemandLedger.pending (L : DemandLedger) (scope : Option Scope) (read : Key → Reading) : Option ℤ :=
  L.claims.entries.foldlM (fun acc e =>
    match scope with
    | none => (e.2.remaining (read e.1)).map fun r => acc + r.1
    | some s => if e.2.scope = s then (e.2.remaining (read e.1)).map fun r => acc + r.2 else some acc) 0

structure Future where
  snapshot : PyDict Key Claim := ∅
  readings : PyDict Key Reading := ∅
  deriving DecidableEq

def Future.reading (f : Future) (key : Key) : Reading := (f.readings.get? key).getD none

def Future.measured (f : Future) : Measured := f.snapshot.mapValues fun k c => ⟨c, f.reading k⟩

-- `replace(claim)` reads `sample` before `baseline`
structure Copying where
  future : ℕ
  todo : List Key
  sample : Option (Option Sampler) := none
  deriving DecidableEq

inductive BindPhase
  | idle
  | found (key : Key) (ident : ℕ) (sampler : Sampler)
  | sampled (key : Key) (ident : ℕ) (sampler : Sampler) (baseline : ℤ × ℤ)
  | checked (key : Key) (ident : ℕ) (sampler : Sampler) (baseline : ℤ × ℤ)
  | half (key : Key) (ident : ℕ) (sampler : Sampler)
  deriving DecidableEq

structure Observing where
  ledger : DemandLedger
  -- the `tool_admission` sampler and the `create`/`restore` sampler of a session
  memorySamples : PyDict Session (Sampler × Sampler) := ∅
  futures : ℕ → Option Future := fun _ => none
  nextFuture : ℕ := 0
  exactSampleFuture : Option ℕ := none
  copying : Option Copying := none
  binders : ℕ → BindPhase := fun _ => .idle

namespace Observing

inductive Action
  | ledger (op : LedgerOp)
  | registerMemory (session : Session) (tool lifecycle : Sampler) (reading : Reading)
  | bindLookup (b : ℕ) (session : Session)
  | bindSample (b : ℕ) (reading : Reading)
  | bindCheck (b : ℕ)
  | bindBaseline (b : ℕ)
  | bindSampler (b : ℕ)
  | startObservation
  | copySample
  | copyBaseline
  | endSnapshot
  | readClaim (future : ℕ) (key : Key) (reading : Reading)
  | clearFuture (future : ℕ)
  deriving DecidableEq

/-- A store into a claim object; it is invisible once the object has left the ledger. -/
def storeInto (L : DemandLedger) (key : Key) (ident : ℕ) (f : Claim → Claim) : DemandLedger :=
  match L.claims.get? key with
  | none => L
  | some c => if c.ident = ident then { L with claims := L.claims.set key (f c) } else L

def registerMemory (s : Observing) (session : Session) (tool lifecycle : Sampler) (reading : Reading) :
    Observing × Except LedgerError Unit :=
  let s := { s with memorySamples := s.memorySamples.set session (tool, lifecycle) }
  match s.ledger.claims.get? (session, .create), reading with
  | none, _ => (s, .ok ())
  | some claim, some b => ({ s with ledger := storeInto s.ledger (session, .create) claim.ident fun c =>
      { c with sample := some lifecycle, baseline := b } }, .ok ())
  | some claim, none => ({ s with ledger := storeInto s.ledger (session, .create) claim.ident fun c =>
      { c with sample := some lifecycle } }, .error .samplerFailed)

def setBinder (s : Observing) (b : ℕ) (p : BindPhase) : Observing := { s with binders := Function.update s.binders b p }

def setFuture (s : Observing) (i : ℕ) (f : Future) : Observing :=
  { s with futures := Function.update s.futures i (some f) }

-- the unlocked look-ups of `bind_tool_memory`
def bindLookup (s : Observing) (b : ℕ) (session : Session) : Observing :=
  match s.ledger.claims.get? (session, .toolAdmission), s.memorySamples.get? session with
  | some claim, some (tool, _) =>
    if claim.sample.isSome then s else s.setBinder b (.found (session, .toolAdmission) claim.ident tool)
  | _, _ => s

def bindCheck (s : Observing) (b : ℕ) (key : Key) (ident : ℕ) (sampler : Sampler) (baseline : ℤ × ℤ) : Observing :=
  match s.ledger.claims.get? key with
  | some claim =>
    if claim.ident = ident ∧ claim.sample = none then s.setBinder b (.checked key ident sampler baseline)
    else s.setBinder b .idle
  | none => s.setBinder b .idle

def startObservation (s : Observing) : Observing :=
  match s.exactSampleFuture with
  | some _ => s
  | none => { s.setFuture s.nextFuture {} with
      exactSampleFuture := some s.nextFuture
      nextFuture := s.nextFuture + 1
      copying := some { future := s.nextFuture, todo := s.ledger.claims.keys } }

def copySample (s : Observing) : Option Observing :=
  match s.copying with
  | some ⟨i, k :: todo, none⟩ =>
    (s.ledger.claims.get? k).map fun c => { s with copying := some ⟨i, k :: todo, some c.sample⟩ }
  | _ => none

def copyBaseline (s : Observing) : Option Observing :=
  match s.copying with
  | some ⟨i, k :: todo, some sample⟩ =>
    match s.futures i, s.ledger.claims.get? k with
    | some f, some c =>
      some { s.setFuture i { f with snapshot := f.snapshot.set k { c with sample } } with copying := some ⟨i, todo,
        none⟩ }
    | _, _ => none
  | _ => none

def endSnapshot (s : Observing) : Option Observing :=
  match s.copying with
  | some ⟨_, [], _⟩ => some { s with copying := none }
  | _ => none

def CopiedOut (s : Observing) (i : ℕ) : Prop := ∀ cp ∈ s.copying, cp.future ≠ i

instance (s : Observing) (i : ℕ) : Decidable (s.CopiedOut i) :=
  inferInstanceAs (Decidable (∀ cp ∈ s.copying, cp.future ≠ i))

def readClaim (s : Observing) (i : ℕ) (key : Key) (reading : Reading) : Option Observing :=
  match s.futures i with
  | some f =>
    if s.CopiedOut i ∧ key ∈ f.snapshot.keys ∧ key ∉ f.readings.keys then
      some (s.setFuture i { f with readings := f.readings.set key reading })
    else none
  | none => none

def clearFuture (s : Observing) (i : ℕ) : Observing :=
  { s with exactSampleFuture := if s.exactSampleFuture = some i then none else s.exactSampleFuture }

-- `bind_tool_memory` stores without the condition, so its two stores fall between any two reads of the others.
def next (s : Observing) : Action → Option (Observing × Except LedgerError Unit)
  | .ledger op =>
    if s.copying = none ∧ op.NonNegative then some ({ s with ledger := (op.run s.ledger).2 }, (op.run s.ledger).1)
    else none
  | .registerMemory session tool lifecycle reading =>
    if s.copying = none then some (s.registerMemory session tool lifecycle reading) else none
  | .bindLookup b session =>
    match s.binders b with
    | .idle => some (s.bindLookup b session, .ok ())
    | _ => none
  | .bindSample b reading =>
    match s.binders b, reading with
    | .found key ident sampler, some baseline => some (s.setBinder b (.sampled key ident sampler baseline), .ok ())
    | .found _ _ _, none => some (s.setBinder b .idle, .error .samplerFailed)
    | _, _ => none
  | .bindCheck b =>
    match s.binders b with
    | .sampled key ident sampler baseline => some (s.bindCheck b key ident sampler baseline, .ok ())
    | _ => none
  | .bindBaseline b =>
    match s.binders b with
    | .checked key ident sampler baseline =>
      some ({ s.setBinder b (.half key ident sampler) with
        ledger := storeInto s.ledger key ident fun c => { c with baseline } }, .ok ())
    | _ => none
  | .bindSampler b =>
    match s.binders b with
    | .half key ident sampler =>
      some ({ s.setBinder b .idle with
        ledger := storeInto s.ledger key ident fun c => { c with sample := some sampler } }, .ok ())
    | _ => none
  | .startObservation => if s.copying = none then some (s.startObservation, .ok ()) else none
  | .copySample => s.copySample.map (·, .ok ())
  | .copyBaseline => s.copyBaseline.map (·, .ok ())
  | .endSnapshot => s.endSnapshot.map (·, .ok ())
  | .readClaim i key reading => (s.readClaim i key reading).map (·, .ok ())
  | .clearFuture i => if s.copying = none then some (s.clearFuture i, .ok ()) else none

def Start (s : Observing) : Prop :=
  ∃ capacity freeFloor margin L, DemandLedger.new capacity freeFloor margin = .ok L ∧ s = { ledger := L }

def system : System Observing (Action × Except LedgerError Unit) := .ofNext Start next

def result (s : Observing) (i : ℕ) : Option Measured :=
  match s.futures i with
  | some f => if s.CopiedOut i ∧ ∀ k ∈ f.snapshot.keys, k ∈ f.readings.keys then some f.measured else none
  | none => none

end Observing

end ClawBox.Admission
