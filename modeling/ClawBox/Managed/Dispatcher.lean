import ClawBox.Lib.PyDict
import ClawBox.Lib.Raising
import ClawBox.Lib.Transition

namespace ClawBox.Managed

open Transition Raising

inductive RunPhase
  | accepted
  | queued
  | running
  | finalizing
  | succeeded
  | failed
  | timedOut
  | cancelled
  deriving DecidableEq

inductive AttemptPhase
  | pendingDispatch
  | queued
  | admitted
  | toolStarting
  | toolReady
  | runtimeRunning
  | collecting
  | succeeded
  | failed
  | timedOut
  | cancelled
  deriving DecidableEq

def runTransitions : RunPhase → List RunPhase
  | .accepted => [.queued, .failed, .timedOut, .cancelled]
  | .queued => [.running, .failed, .timedOut, .cancelled]
  | .running => [.finalizing, .failed, .timedOut, .cancelled]
  | .finalizing => [.succeeded, .failed, .timedOut, .cancelled]
  | .succeeded | .failed | .timedOut | .cancelled => []

def attemptTransitions : AttemptPhase → List AttemptPhase
  | .pendingDispatch => [.queued, .failed, .timedOut, .cancelled]
  | .queued => [.admitted, .failed, .timedOut, .cancelled]
  | .admitted => [.toolStarting, .failed, .timedOut, .cancelled]
  | .toolStarting => [.toolReady, .failed, .timedOut, .cancelled]
  | .toolReady => [.runtimeRunning, .failed, .timedOut, .cancelled]
  | .runtimeRunning => [.collecting, .failed, .timedOut, .cancelled]
  | .collecting => [.succeeded, .failed, .timedOut, .cancelled]
  | .succeeded | .failed | .timedOut | .cancelled => []

def isTerminalRun (p : RunPhase) : Bool := p = .succeeded || p = .failed || p = .timedOut || p = .cancelled

def isTerminalAttempt (p : AttemptPhase) : Bool := p = .succeeded || p = .failed || p = .timedOut || p = .cancelled

def runProgress : List RunPhase := [.accepted, .queued, .running, .finalizing]

def attemptProgress : List AttemptPhase :=
  [.pendingDispatch, .queued, .admitted, .toolStarting, .toolReady, .runtimeRunning, .collecting]

inductive Desired
  | running
  | cancelled
  deriving DecidableEq

structure Run where
  phase : RunPhase := .accepted
  -- `none` until a cancel is recorded
  desiredState : Option Desired := none
  currentAttemptId : Option ℕ := none
  attemptCounter : ℕ := 0
  deriving DecidableEq

structure Attempt where
  run : ℕ
  number : ℕ
  phase : AttemptPhase := .pendingDispatch
  deriving DecidableEq

inductive Event
  | runAccepted
  | attemptCreated (attempt : ℕ)
  | cancelRequested
  -- `run.<phase>` and `attempt.<phase>`, which the dispatcher drains
  | phaseChanged
  deriving DecidableEq

structure Row where
  run : ℕ
  event : Event
  processed : Bool := false
  deriving DecidableEq

structure Database where
  runs : PyDict ℕ Run := ∅
  attempts : PyDict ℕ Attempt := ∅
  outbox : List Row := []

/-- `status.phase` of a SandboxTask; `cleaned` comes with the error category. -/
inductive CellPhase
  | pending
  | running
  | succeeded
  | failed
  | cancelled
  | cleaned (cancelled : Bool)
  | other
  deriving DecidableEq

def CellPhase.terminal : CellPhase → Bool
  | .succeeded | .failed | .cancelled | .cleaned _ => true
  | _ => false

structure Task where
  attemptId : ℕ
  desiredState : Desired
  status : Option CellPhase := none
  -- a terminal phase was reported; only the statements look at it
  reported : Bool := false
  deriving DecidableEq

structure State where
  db : Database := {}
  -- by run and attempt number, which make the name of the SandboxTask
  tasks : PyDict (ℕ × ℕ) Task := ∅
  minted : ℕ := 0

inductive Fault
  | illegalTransition
  | retryTerminal
  | notFound
  | api
  | foreignAttempt
  deriving DecidableEq

abbrev Step := Raising State Fault

def changeDb (f : Database → Database) : Step Unit := modify fun s => { s with db := f s.db }

def Database.append (db : Database) (run : ℕ) (event : Event) : Database :=
  { db with outbox := db.outbox ++ [{ run, event }] }

def Database.putRun (db : Database) (r : ℕ) (run : Run) : Database := { db with runs := db.runs.set r run }

def Database.putAttempt (db : Database) (a : ℕ) (x : Attempt) : Database := { db with attempts := db.attempts.set a x }

def requestCancel (r : ℕ) (run : Run) : Step Unit :=
  changeDb fun db =>
    (db.putRun r (if isTerminalRun run.phase then run else { run with desiredState := some .cancelled })).append r
      .cancelRequested

def Run.renewed (run : Run) (a : ℕ) : Run :=
  { run with
    phase := if run.phase = .failed then .accepted else run.phase
    attemptCounter := run.attemptCounter + 1
    currentAttemptId := some a }

def newAttempt (r : ℕ) (run : Run) : Step Unit := do
  if isTerminalRun run.phase ∧ run.phase ≠ .failed then raise .retryTerminal
  else modify fun s =>
    { s with
      minted := s.minted + 1
      db := ((s.db.putAttempt s.minted ⟨r, run.attemptCounter + 1, .pendingDispatch⟩).putRun r
        (run.renewed s.minted)).append r (.attemptCreated s.minted) }

def transitionRun (r : ℕ) (target : RunPhase) : Step Unit := do
  let s ← get
  match s.db.runs.get? r with
  | none => raise .notFound
  | some run =>
    if run.phase ≠ target ∧ target ∉ runTransitions run.phase then raise .illegalTransition
    else changeDb fun db => (db.putRun r { run with phase := target }).append r .phaseChanged

def transitionAttempt (a : ℕ) (target : AttemptPhase) : Step Unit := do
  let s ← get
  match s.db.attempts.get? a with
  | none => raise .notFound
  | some x =>
    if x.phase ≠ target ∧ target ∉ attemptTransitions x.phase then raise .illegalTransition
    else changeDb fun db => (db.putAttempt a { x with phase := target }).append x.run .phaseChanged

/-- How one call to the cluster goes: `lost` takes effect and raises. -/
inductive Fate
  | answered
  | lost
  | refused
  deriving DecidableEq

def Fate.settle : Fate → Step Unit
  | .answered => pure ()
  | _ => raise .api

def applySandboxtask (f : Fate) (name : ℕ × ℕ) (a : ℕ) (desired : Desired) : Step Unit := do
  let s ← get
  if f = .refused then raise .api
  else
    match s.tasks.get? name with
    | none => do
      modify fun s => { s with tasks := s.tasks.set name ⟨a, desired, none, false⟩ }
      f.settle
    | some t => if t.attemptId ≠ a then raise .foreignAttempt else f.settle

def cancelSandboxtask (f : Fate) (name : ℕ × ℕ) : Step Unit := do
  let s ← get
  if f = .refused then raise .api
  else
    match s.tasks.get? name with
    -- 404: already gone
    | none => f.settle
    | some t => do
      modify fun s => { s with tasks := s.tasks.set name { t with desiredState := .cancelled } }
      f.settle

def handleRunAccepted (r : ℕ) : Step Unit := do
  let s ← get
  match s.db.runs.get? r with
  | none => raise .notFound
  | some run => if run.currentAttemptId = none then newAttempt r run else pure ()

def manifestState (run : Run) : Desired := if run.desiredState = some .cancelled then .cancelled else .running

def handleAttemptCreated (r a : ℕ) (f : Fate) : Step Unit := do
  let s ← get
  match s.db.attempts.get? a, s.db.runs.get? r with
  | some x, some run => do
    applySandboxtask f (r, x.number) a (manifestState run)
    if run.phase = .accepted then transitionRun r .queued else pure ()
  | _, _ => raise .notFound

def handleCancel (r : ℕ) (f : Fate) : Step Unit := do
  let s ← get
  match s.db.runs.get? r with
  | none => raise .notFound
  | some run =>
    match run.currentAttemptId with
    | none => pure ()
    | some a =>
      match s.db.attempts.get? a with
      | none => pure ()
      | some x => cancelSandboxtask f (r, x.number)

def handle (row : Row) (f : Fate) : Step Unit :=
  match row.event with
  | .runAccepted => handleRunAccepted row.run
  | .attemptCreated a => handleAttemptCreated row.run a f
  | .cancelRequested => handleCancel row.run f
  | .phaseChanged => pure ()

def completeOutbox (k : ℕ) : Step Unit :=
  changeDb fun db => { db with outbox := db.outbox.modify k fun row => { row with processed := true } }

def handleRow (k : ℕ) (row : Row) (f : Fate) : Step Unit :=
  (do handle row f; completeOutbox k).tryExcept fun _ => pure ()

def handleRows (fate : ℕ → Fate) : List (ℕ × Row) → Step Unit
  | [] => pure ()
  | (k, row) :: rows => do
    handleRow k row (fate k)
    handleRows fate rows

def runPath (p q : RunPhase) : Option (List RunPhase) :=
  if p = q ∨ isTerminalRun p then some []
  else if q ∈ runProgress then
    (runProgress.idxOf? p).bind fun current =>
      (runProgress.idxOf? q).map fun desired => (runProgress.take (desired + 1)).drop (current + 1)
  else if q = .succeeded then (runProgress.idxOf? p).map fun current => runProgress.drop (current + 1) ++ [q]
  else some [q]

def attemptPath (p q : AttemptPhase) : Option (List AttemptPhase) :=
  if p = q ∨ isTerminalAttempt p then some []
  else if q ∈ attemptProgress then
    (attemptProgress.idxOf? p).bind fun current =>
      (attemptProgress.idxOf? q).map fun desired => (attemptProgress.take (desired + 1)).drop (current + 1)
  else if q = .succeeded then (attemptProgress.idxOf? p).map fun current => attemptProgress.drop (current + 1) ++ [q]
  else some [q]

def walkRun (r : ℕ) : List RunPhase → Step Unit
  | [] => pure ()
  | p :: ps => do
    transitionRun r p
    walkRun r ps

def walkAttempt (a : ℕ) : List AttemptPhase → Step Unit
  | [] => pure ()
  | p :: ps => do
    transitionAttempt a p
    walkAttempt a ps

def advanceRun (r : ℕ) (run : Run) (target : RunPhase) : Step Unit :=
  match runPath run.phase target with
  | none => raise .illegalTransition
  | some ps => walkRun r ps

def advanceAttempt (a : ℕ) (x : Attempt) (target : AttemptPhase) : Step Unit :=
  match attemptPath x.phase target with
  | none => raise .illegalTransition
  | some ps => walkAttempt a ps

def phasesForCell : CellPhase → Option (AttemptPhase × RunPhase)
  | .pending => some (.queued, .queued)
  | .running => some (.runtimeRunning, .running)
  | .succeeded => some (.succeeded, .succeeded)
  | .failed | .cleaned false => some (.failed, .failed)
  | .cancelled | .cleaned true => some (.cancelled, .cancelled)
  | .other => none

def syncStatus (name : ℕ × ℕ) (t : Task) : Step Unit := do
  let s ← get
  match t.status.bind phasesForCell, s.db.runs.get? name.1, s.db.attempts.get? t.attemptId with
  | some (attemptTarget, runTarget), some run, some x =>
    if x.run ≠ name.1 ∨ run.currentAttemptId ≠ some t.attemptId then pure ()
    else do
      advanceAttempt t.attemptId x attemptTarget
      advanceRun name.1 run runTarget
  | _, _, _ => pure ()

def syncStatuses : List ((ℕ × ℕ) × Task) → Step Unit
  | [] => pure ()
  | (name, t) :: tasks => do
    (syncStatus name t).tryExcept fun _ => pure ()
    syncStatuses tasks

def pendingRows (db : Database) (batchSize : ℕ) : List (ℕ × Row) :=
  ((db.outbox.mapIdx fun k row => (k, row)).filter fun e => !e.2.processed).take batchSize

def runOnce (batchSize : ℕ) (fate : ℕ → Fate) (listed committed : Bool) (s : State) : State :=
  let s₁ := ((handleRows fate (pendingRows s.db batchSize)).run s).2
  if listed then
    let s₂ := ((syncStatuses s₁.tasks.entries).run s₁).2
    if committed then s₂ else { s₂ with db := s.db }
  else { s₁ with db := s.db }

inductive Action
  | create (r : ℕ)
  | cancel (r : ℕ)
  | retry (r : ℕ)
  | pass (batchSize : ℕ) (fate : ℕ → Fate) (listed committed : Bool)
  | report (name : ℕ × ℕ) (phase : CellPhase)

abbrev Outcome := Except Fault Unit

namespace State

def call (s : State) (x : Step Unit) : Option (State × Outcome) := some ((x.run s).2, (x.run s).1)

-- A pass works on the database of its session; the cluster keeps what was done to it also when the session is rolled
-- back.
def next (s : State) : Action → Option (State × Outcome)
  | .create r =>
    match s.db.runs.get? r with
    | none => some ({ s with db := (s.db.putRun r {}).append r .runAccepted }, .ok ())
    | some _ => none
  | .cancel r =>
    match s.db.runs.get? r with
    | none => none
    | some run => s.call (requestCancel r run)
  | .retry r =>
    match s.db.runs.get? r with
    | none => none
    | some run => s.call (newAttempt r run)
  | .pass batchSize fate listed committed => some (runOnce batchSize fate listed committed s, .ok ())
  | .report name phase =>
    match s.tasks.get? name with
    | none => none
    | some t =>
      let t' : Task := { t with status := some phase, reported := t.reported || phase.terminal }
      some ({ s with tasks := s.tasks.set name t' }, .ok ())

def Start (s : State) : Prop := s.db = {} ∧ s.tasks = ∅

def system : System State (Action × Outcome) := .ofNext Start next

end State

end ClawBox.Managed
