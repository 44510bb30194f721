import ClawBox.Lib.PyDict
import ClawBox.Lib.Transition

namespace ClawBox.Knowledge

open Transition

inductive Kind
  | close
  | plain
  | call (session : ℕ)
  deriving DecidableEq

structure Job where
  ident : ℕ
  kind : Kind
  deriving DecidableEq

inductive Message
  | request (job : Job)
  | continuation (job : Job)
  -- the journal write of a suspended transaction ended, well or not
  | commit (job : Job)
  | disconnect
  deriving DecidableEq

structure Process where
  alive : Bool := true
  inbox : List Message := []
  pending : PyDict ℕ (List Job) := ∅
  busy : List ℕ := []
  writing : List Job := []
  stopping : Option Job := none
  deriving DecidableEq

inductive Thread
  | idle
  | popped (ident : ℕ)
  | released (ident : ℕ)
  | failing (left : List ℕ)
  | setting (ident : ℕ) (left : List ℕ)
  | ended
  deriving DecidableEq

structure State where
  limit : ℕ
  permits : ℕ
  -- the threads between the two updates of `submit`
  entering : List Kind := []
  pending : List ℕ := []
  outbox : List (Option Job) := []
  sequence : ℕ := 0
  error : Bool := false
  closing : Bool := false
  connected : Bool := true
  reader : Thread := .idle
  sender : Thread := .idle
  toOwner : List Job := []
  toClient : List ℕ := []
  process : Process := {}
  -- what was accepted, taken from the inbox, answered by the owner and resolved so far
  accepted : List Job := []
  taken : List Job := []
  answered : List Job := []
  resolved : List ℕ := []
  overReleased : Bool := false
  deriving DecidableEq

/-- How a run of an operation ends: by a return or an exception, or at a `yield` of its transaction. -/
inductive Outcome
  | answer
  | suspend
  deriving DecidableEq

inductive Act
  | acquire (kind : Kind)
  | enter (kind : Kind)
  | send
  | sendFails
  | receive
  | receiveFails
  | senderStep
  | readerStep
  | ownerReceive
  | ownerHears
  | loop (outcome : Outcome)
  | written
  | exit
  | disconnect
  | stop
  deriving DecidableEq

inductive Event
  | started (job : Job)
  | resumed (job : Job)
  | closed (job : Job)
  deriving DecidableEq

namespace Process

def queue (o : Process) (session : ℕ) : List Job := (o.pending.get? session).getD []

def drained (o : Process) : Bool := o.busy.isEmpty && o.pending.values.all List.isEmpty

def take (o : Process) : Process := { o with inbox := o.inbox.tail }

def release (o : Process) (session : ℕ) : Process :=
  match o.queue session with
  | job :: rest =>
    { o with inbox := o.inbox ++ [.continuation job], pending := o.pending.set session rest }
  | [] => { o with busy := o.busy.erase session }

def settle (o : Process) : Kind → Process
  | .call session => o.release session
  | _ => o

def occupy (o : Process) (session : ℕ) : Process :=
  { o with busy := if session ∈ o.busy then o.busy else session :: o.busy }

def defer (o : Process) (session : ℕ) (job : Job) : Process :=
  { o with pending := o.pending.set session (o.queue session ++ [job]) }

end Process

namespace State

def release (s : State) : State :=
  if s.permits < s.limit then { s with permits := s.permits + 1 } else { s with overReleased := true }

def resolve (s : State) (ident : ℕ) : State := { s with resolved := ident :: s.resolved }

def fail (s : State) : State := { s with error := true, pending := [] }

def settleStep (s : State) : Thread → Option (State × Thread)
  | .popped ident => some (s.release, .released ident)
  | .released ident => some (s.resolve ident, .idle)
  | .failing (ident :: left) => some (s.release, .setting ident left)
  | .failing [] => some (s, .ended)
  | .setting ident left => some (s.resolve ident, .failing left)
  | _ => none

def reply (s : State) (job : Job) : State :=
  { s with
    toClient := s.toClient ++ [job.ident]
    answered := job :: s.answered
    process := s.process.settle job.kind }

def suspend (s : State) (job : Job) : State :=
  { s with process := { s.process with writing := s.process.writing ++ [job] } }

def run (s : State) (job : Job) : Outcome → Option State
  | .answer => some (s.reply job)
  | .suspend =>
    match job.kind with
    | .call _ => some (s.suspend job)
    | _ => none

def withProcess (s : State) (process : Process) : State := { s with process := process }

def takeRequest (s : State) (job : Job) : State :=
  { s with process := s.process.take, taken := s.taken ++ [job] }

def loop (s : State) (outcome : Outcome) : Option (State × Option Event) :=
  if !s.process.alive then none
  else
    match s.process.stopping, s.process.drained with
    | some job, true =>
      some ((s.reply job).withProcess { (s.reply job).process with alive := false }, some (.closed job))
    | _, _ =>
      match s.process.inbox.head? with
      | none => none
      | some .disconnect => some (s.withProcess { s.process with alive := false }, none)
      | some (.commit job) =>
        ((s.withProcess s.process.take).run job outcome).map (·, some (.resumed job))
      | some (.continuation job) =>
        ((s.withProcess s.process.take).run job outcome).map (·, some (.started job))
      | some (.request job) =>
        match job.kind with
        | .close => some ((s.takeRequest job).withProcess { s.process.take with stopping := some job }, none)
        | .plain => ((s.takeRequest job).run job outcome).map (·, some (.started job))
        | .call session =>
          if session ∈ s.process.busy then
            some ((s.takeRequest job).withProcess (s.process.take.defer session job), none)
          else
            (((s.takeRequest job).withProcess (s.process.take.occupy session)).run job outcome).map
              (·, some (.started job))

def enter (s : State) (kind : Kind) : State :=
  if s.error ∨ s.closing then s.release
  else
    { s with
      closing := kind = .close
      sequence := s.sequence + 1
      pending := s.pending ++ [s.sequence + 1]
      outbox := s.outbox ++ [some ⟨s.sequence + 1, kind⟩]
      accepted := s.accepted ++ [⟨s.sequence + 1, kind⟩] }

def broken (s : State) : Bool := !s.process.alive || !s.connected

-- A step is a section under `lock` or a pass of a loop.
def next (s : State) : Act → Option (State × Option Event)
  | .acquire kind =>
    if 0 < s.permits then some ({ s with permits := s.permits - 1, entering := kind :: s.entering }, none) else none
  | .enter kind =>
    if kind ∈ s.entering then some ({ s with entering := s.entering.erase kind }.enter kind, none) else none
  | .send =>
    match s.sender, s.outbox with
    | .idle, none :: rest => some ({ s with outbox := rest, sender := .ended }, none)
    | .idle, some job :: rest =>
      some ({ s with
        outbox := rest
        toOwner := s.toOwner ++ [job]
        sender := if job.kind = .close then .ended else .idle }, none)
    | _, _ => none
  | .sendFails =>
    match s.sender, s.outbox with
    | .idle, some _ :: rest =>
      if s.broken then some ({ s.fail with outbox := rest, sender := .failing s.pending }, none) else none
    | _, _ => none
  | .receive =>
    match s.reader, s.toClient with
    | .idle, ident :: rest =>
      if ident ∈ s.pending then
        some ({ s with toClient := rest, pending := s.pending.erase ident, reader := .popped ident }, none)
      else some ({ s with toClient := rest }, none)
    | _, _ => none
  | .receiveFails =>
    if s.reader = .idle ∧ s.broken then some ({ s.fail with reader := .failing s.pending }, none) else none
  | .senderStep => (s.settleStep s.sender).map fun r => ({ r.1 with sender := r.2 }, none)
  | .readerStep => (s.settleStep s.reader).map fun r => ({ r.1 with reader := r.2 }, none)
  | .ownerReceive =>
    match s.toOwner with
    | job :: rest =>
      if s.process.alive then
        some ({ s with toOwner := rest, process := { s.process with inbox := s.process.inbox ++ [.request job] } },
          none)
      else none
    | [] => none
  | .ownerHears =>
    if s.process.alive ∧ !s.connected then
      some (s.withProcess { s.process with inbox := s.process.inbox ++ [.disconnect] }, none)
    else none
  | .loop outcome => s.loop outcome
  | .written =>
    match s.process.writing with
    | job :: rest =>
      if s.process.alive then
        some (s.withProcess { s.process with writing := rest, inbox := s.process.inbox ++ [.commit job] }, none)
      else none
    | [] => none
  | .exit => some (s.withProcess { s.process with alive := false }, none)
  | .disconnect => some ({ s with connected := false }, none)
  | .stop => if s.connected then none else some ({ s with outbox := s.outbox ++ [none] }, none)

def Start (s : State) : Prop := ∃ limit, s = { limit := limit, permits := limit }

def system : System State (Act × Option Event) := .ofNext Start next

end State

end ClawBox.Knowledge
