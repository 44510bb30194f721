import ClawBox.Lib.PyDict
import ClawBox.Lib.Transition
import Mathlib.Logic.Function.Basic

namespace ClawBox.Control

open Transition

/-- A JSON scalar under Python's equality, where a boolean is the number 0 or 1. -/
inductive Value
  | null
  | number (n : ℤ)
  | text (s : String)
  deriving DecidableEq

abbrev Fields := PyDict String Value

/-- A request that `PolicyControlServer._validate` let through. -/
structure Request where
  executionId : Value
  commandSha256 : Value
  body : Fields := ∅
  deriving DecidableEq

structure Fault where
  type : String
  message : String
  deriving DecidableEq

inductive Lifecycle
  | active
  | draining
  | closed
  deriving DecidableEq

def Lifecycle.value : Lifecycle → String
  | .active => "active"
  | .draining => "draining"
  | .closed => "closed"

structure Execution where
  request : Request
  commandSha256 : Value
  admission : Option Fields := none
  admissionError : Option Fault := none
  completion : Option Fields := none
  admitting : Bool := false
  completing : Bool := false
  started : Bool := false
  guestFinished : Bool := false
  deriving DecidableEq

structure Session where
  lifecycle : Lifecycle := .active
  -- an `_Execution` compares by identity, and a popped one lives on in the requests that hold it
  executions : PyDict Value ℕ := ∅
  objects : ℕ → Execution := fun _ => ⟨⟨.null, .null, ∅⟩, .null, none, none, none, false, false, false, false⟩
  created : ℕ := 0
  -- whether the optional callbacks are attached
  abandon : Bool := true
  start : Bool := true

inductive Phase
  | admitCall (r : ℕ) (request : Request)
  | awaitAdmission (r : ℕ) (request : Request)
  | answered (r : ℕ) (request : Request) (response : Fields) (duplicate : Bool)
  | delivered (r : ℕ) (request : Request) (response : Fields) (duplicate : Bool)
  | disconnected
  | abandon (r : ℕ)
  | awaitCompletion (r : ℕ) (request : Request)
  | complete (r : ℕ) (request : Request)
  | acknowledged (response : Fields) (duplicate : Bool)
  | drain (timed : Bool)
  | drained (result : Bool)
  | raised (fault : Fault)
  deriving DecidableEq

def runtimeError (message : String) : Phase := .raised ⟨"RuntimeError", message⟩

def valueError (message : String) : Phase := .raised ⟨"ValueError", message⟩

def setdefault (d : Fields) (key : String) (value : Value) : Fields :=
  if (d.get? key).isSome then d else d.set key value

def item (d : Fields) (key : String) : Value := (d.get? key).getD .null

def merge (d e : Fields) : Fields := e.entries.foldl (fun d x => d.set x.1 x.2) d

namespace Session

def change (s : Session) (r : ℕ) (f : Execution → Execution) : Session :=
  { s with objects := Function.update s.objects r (f (s.objects r)) }

def create (s : Session) (request : Request) : Session :=
  { s with
    executions := s.executions.set request.executionId s.created
    objects := Function.update s.objects s.created
      { request := request, commandSha256 := request.commandSha256, admitting := true }
    created := s.created + 1 }

def awaitAdmission (s : Session) (r : ℕ) (request : Request) : Session × Phase :=
  if (s.objects r).admitting then (s, .awaitAdmission r request)
  else
    match (s.objects r).admission with
    | none => (s, runtimeError "prior admission attempt failed")
    | some response => (s, .answered r request response true)

def admission (s : Session) (request : Request) : Session × Phase :=
  if s.lifecycle ≠ .active then (s, runtimeError ("session is " ++ s.lifecycle.value))
  else
    match s.executions.get? request.executionId with
    | none => (s.create request, .admitCall s.created request)
    | some r =>
      if (s.objects r).commandSha256 ≠ request.commandSha256 then
        (s, valueError "execution_id was reused for a different command")
      else s.awaitAdmission r request

def decision (outcome : Except Fault Fields) : Except Fault Fields :=
  match outcome with
  | .error e => .error e
  | .ok response =>
    if item (setdefault response "decision" (.text "ADMIT")) "decision" ≠ .text "ADMIT" then
      .error ⟨"RuntimeError", "admission callback must block or return ADMIT"⟩
    else .ok (setdefault response "decision" (.text "ADMIT"))

def admitted (s : Session) (r : ℕ) (request : Request) (outcome : Except Fault Fields) : Session × Phase :=
  match decision outcome with
  | .error e => (s.change r fun x => { x with admissionError := some e, admitting := false }, .raised e)
  | .ok response =>
    (s.change r fun x => { x with admission := some response, admitting := false },
      .answered r request response false)

def optional (attached : Bool) (outcome : Except Fault Unit) : Except Fault Unit :=
  if attached then outcome else .ok ()

def executionStart (s : Session) (request : Request) (outcome : Except Fault Unit) : Session × Phase :=
  match s.executions.get? request.executionId with
  | none => (s, valueError "start has no admitted execution")
  | some r =>
    match (s.objects r).admission with
    | none => (s, valueError "start has no admitted execution")
    | some admission =>
      if (s.objects r).commandSha256 ≠ request.commandSha256 then
        (s, valueError "start command does not match admission")
      else if item request.body "endpoint_epoch" ≠ item admission "epoch" ∨
          item request.body "endpoint_sandbox_id" ≠ item admission "sandbox_id" then
        (s, valueError "start endpoint does not match admission")
      else
        let phase := (request.body.get? "phase").getD (.text "start")
        if phase ≠ .text "start" ∧ phase ≠ .text "end" then (s, valueError "invalid guest execution phase")
        else
          let status := (∅ : Fields).set "status" (.text "STARTED")
          if (s.objects r).guestFinished ∨ (s.objects r).completion.isSome ∨ (s.objects r).completing ∨
              ((s.objects r).started ∧ phase = .text "start") then (s, .acknowledged status true)
          else
            match optional s.start outcome with
            | .error e => (s, .raised e)
            | .ok () =>
              (s.change r fun x => { x with started := true, guestFinished := decide (phase = .text "end") },
                .acknowledged status false)

def awaitCompletion (s : Session) (r : ℕ) (request : Request) : Session × Phase :=
  if (s.objects r).completing then (s, .awaitCompletion r request)
  else
    match (s.objects r).completion with
    | some response => (s, .acknowledged response true)
    | none => (s.change r fun x => { x with completing := true }, .complete r request)

def completion (s : Session) (request : Request) : Session × Phase :=
  match s.executions.get? request.executionId with
  | none => (s, valueError "completion has no admitted execution")
  | some r =>
    if (s.objects r).admission.isNone then (s, valueError "completion has no admitted execution")
    else if (s.objects r).commandSha256 ≠ request.commandSha256 then
      (s, valueError "completion command does not match admission")
    else s.awaitCompletion r request

def completed (s : Session) (r : ℕ) (request : Request) (outcome : Except Fault Fields) : Session × Phase :=
  match outcome with
  | .error e => (s.change r fun x => { x with completing := false }, .raised e)
  | .ok response =>
    let response := setdefault response "status" (.text "COMPLETED")
    (s.change r fun x => { x with completion := some (merge request.body response), completing := false },
      .acknowledged response false)

def forget (s : Session) (r : ℕ) : Session :=
  let executionId := (s.objects r).request.executionId
  { s.change r fun x => { x with admitting := false } with
    executions :=
      if s.executions.get? executionId = some r then s.executions.pop executionId else s.executions }

def abandonAdmission (s : Session) (executionId : Value) : Session × Phase :=
  match s.executions.get? executionId with
  | none => (s, .disconnected)
  | some r =>
    if (s.objects r).admission.isNone ∨ (s.objects r).completion.isSome then (s, .disconnected)
    else (s.change r fun x => { x with admitting := true }, .abandon r)

def abandoned (s : Session) (r : ℕ) (outcome : Except Fault Unit) : Session × Phase :=
  match optional s.abandon outcome with
  | .error e => (s.change r fun x => { x with admissionError := some e, admitting := false }, .raised e)
  | .ok () => (s.forget r, .disconnected)

def outstanding (s : Session) : Bool :=
  s.executions.values.any fun r => (s.objects r).admission.isSome && (s.objects r).completion.isNone

def awaitDrain (s : Session) (timed expired : Bool) : Session × Phase :=
  if s.outstanding then
    if timed && expired then (s, .drained false) else (s, .drain timed)
  else ({ s with lifecycle := .closed }, .drained true)

def drain (s : Session) (timed expired : Bool) : Session × Phase :=
  if s.lifecycle = .closed then (s, .drained true)
  else awaitDrain { s with lifecycle := .draining } timed expired

end Session

inductive Action
  | admission (request : Request)
  | admitted (outcome : Except Fault Fields)
  | deliver
  | disconnect
  | abandoned (outcome : Except Fault Unit)
  | executionStart (request : Request) (outcome : Except Fault Unit)
  | completion (request : Request)
  | completed (outcome : Except Fault Fields)
  | drain (timed expired : Bool)
  | wake (expired : Bool)

inductive Deed
  | admitted (r : ℕ)
  | completed (r : ℕ)
  | abandoned (r : ℕ)
  deriving DecidableEq

structure State where
  session : Session := {}
  requests : PyDict ℕ Phase := ∅
  log : List Deed := []

namespace State

def put (s : State) (i : ℕ) (r : Session × Phase) (deeds : List Deed := []) : Option (State × Phase) :=
  some (⟨r.1, s.requests.set i r.2, deeds ++ s.log⟩, r.2)

-- A step is a section under `condition`; a callback runs between two steps, and its outcome comes with the second.
def next (s : State) : ℕ × Action → Option (State × Phase)
  | (i, a) =>
    match s.requests.get? i, a with
    | none, .admission request => s.put i (s.session.admission request)
    | none, .executionStart request outcome => s.put i (s.session.executionStart request outcome)
    | none, .completion request => s.put i (s.session.completion request)
    | none, .drain timed expired => s.put i (s.session.drain timed expired)
    | some (.admitCall r request), .admitted outcome =>
      s.put i (s.session.admitted r request outcome) (if (Session.decision outcome).isOk then [.admitted r] else [])
    | some (.awaitAdmission r request), .wake _ => s.put i (s.session.awaitAdmission r request)
    | some (.answered r request response duplicate), .deliver =>
      s.put i (s.session, .delivered r request response duplicate)
    | some (.answered _ request _ duplicate), .disconnect =>
      s.put i (if duplicate then (s.session, .disconnected) else s.session.abandonAdmission request.executionId)
    | some (.abandon r), .abandoned outcome =>
      s.put i (s.session.abandoned r outcome) (if s.session.abandon ∧ outcome.isOk then [.abandoned r] else [])
    | some (.awaitCompletion r request), .wake _ => s.put i (s.session.awaitCompletion r request)
    | some (.complete r request), .completed outcome =>
      s.put i (s.session.completed r request outcome) (if outcome.isOk then [.completed r] else [])
    | some (.drain timed), .wake expired => s.put i (s.session.awaitDrain timed expired)
    | _, _ => none

def Start (s : State) : Prop := ∃ abandon start, s = { session := { abandon := abandon, start := start } }

def system : System State ((ℕ × Action) × Phase) := .ofNext Start next

end State

end ClawBox.Control
