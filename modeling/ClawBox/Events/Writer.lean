import ClawBox.Lib.Transition
import ClawBox.Lib.Monitor

namespace ClawBox.Events

open Transition
open Monitor (Thread)

abbrev Text := List Char

/-- One call of `write`, the `index`-th of its producer. -/
structure Write where
  producer : Thread
  index : ℕ
  -- what `json.dumps` gives for the row
  payload : Text
  deriving DecidableEq

/-- The `Event` of one `flush`, with the writes that had returned when it was called. -/
structure Barrier where
  number : ℕ
  before : List Write
  deriving DecidableEq

inductive Item
  | row (w : Write) (queuedNs preparedNs : ℤ)
  | barrier (b : Barrier)
  | sentinel
  deriving DecidableEq

structure Row where
  write : Write
  sequence : ℕ
  preparedNs : ℤ
  delayNs : ℤ
  deriving DecidableEq

def Row.render (r : Row) : Text :=
  ("\x7b\"sequence_no\":" ++ toString r.sequence ++ ",\"event_writer_lock_wait_ns\":0,\"event_writer_prepare_ns\":" ++
    toString r.preparedNs ++ ",\"event_writer_queue_delay_ns\":" ++ toString r.delayNs ++ ",").toList ++
    r.write.payload.drop 1 ++ ['\n']

def render (rows : List Row) : Text := rows.flatMap Row.render

def flushEventCount : ℕ := 128

inductive Then
  | loop
  | set (b : Barrier)
  | stop
  deriving DecidableEq

inductive WriterStage
  | get
  | save (k : Then)
  | flushing (k : Then)
  | setting (b : Barrier)
  | closing
  | finished
  deriving DecidableEq

def Then.stage : Then → WriterStage
  | .loop => .get
  | .set b => .setting b
  | .stop => .closing

inductive Task
  | idle
  | checkError (w : Write)
  | checkClosed (w : Write)
  | prepare (w : Write)
  | put (w : Write)
  | recheck (w : Write)
  | returning (w : Write)
  | flushLock (before : List Write)
  | flushRead (before : List Write)
  | flushPut (before : List Write)
  | flushWait (b : Barrier)
  | flushJoin (before : List Write)
  | flushCheck (before : List Write)
  | closeLock
  | closeTest
  | closePut
  | closeJoin
  | closeCheck
  deriving DecidableEq

structure State where
  file : Text := []
  -- written to the stream and not yet in the file
  buffer : Text := []
  rows : List Row := []
  sequence : ℕ := 0
  error : Bool := false
  closed : Bool := false
  lock : Option Thread := none
  pending : List Item := []
  writer : WriterStage := .get
  -- the barriers that were set
  events : List Barrier := []
  tasks : Thread → Task := fun _ => .idle
  -- the history: how often each producer called `write`, which calls returned, and
  -- the flushes and closes that returned normally
  calls : Thread → ℕ := fun _ => 0
  returned : List Write := []
  barriers : ℕ := 0
  flushes : List (List Write × Text) := []
  closeReturned : Bool := false

inductive Action
  | write (payload : Text)
  | flush
  | close
  -- the call under way goes on; `raises` is about `json.dumps` and the activity tracker
  | go (raises : Bool) (queuedNs preparedNs : ℤ)
  -- the writer thread: what comes out of the queue, or `Empty`
  | take (delayNs : ℤ) (late : Bool)
  | timeout
  -- a call of the stream, of which `moved` characters reach the file if it fails
  | stream (fails : Bool) (moved kept : ℕ)
  | setEvent
  deriving DecidableEq

namespace State

def setTask (s : State) (i : Thread) (k : Task) : State := { s with tasks := Function.update s.tasks i k }

def enqueue (s : State) (item : Item) : State := { s with pending := s.pending ++ [item] }

def release (s : State) : State := { s with lock := none }

def begin (s : State) (i : Thread) : Action → Option State
  | .write payload =>
    some ({ s with calls := Function.update s.calls i (s.calls i + 1) }.setTask i (.checkError ⟨i, s.calls i, payload⟩))
  | .flush => some (s.setTask i (.flushLock s.returned))
  | .close => some (s.setTask i .closeLock)
  | _ => none

def go (s : State) (i : Thread) (raises : Bool) (queuedNs preparedNs : ℤ) : Task → Option State
  | .idle => none
  | .checkError w => some (s.setTask i (if s.error then .idle else .checkClosed w))
  | .checkClosed w => some (s.setTask i (if s.closed then .idle else .prepare w))
  | .prepare w => some (s.setTask i (if raises then .idle else .put w))
  | .put w => some ((s.enqueue (.row w queuedNs preparedNs)).setTask i (.recheck w))
  | .recheck w => some (s.setTask i (if s.closed then .idle else .returning w))
  | .returning w => some ({ s with returned := s.returned ++ [w] }.setTask i .idle)
  | .flushLock before =>
    if s.lock.isNone then some ({ s with lock := some i }.setTask i (.flushRead before)) else none
  | .flushRead before =>
    some (if s.closed then s.release.setTask i (.flushJoin before) else s.setTask i (.flushPut before))
  | .flushPut before =>
    some (({ s with barriers := s.barriers + 1 }.enqueue (.barrier ⟨s.barriers, before⟩)).release.setTask i
      (.flushWait ⟨s.barriers, before⟩))
  | .flushWait b => if b ∈ s.events then some (s.setTask i (.flushCheck b.before)) else none
  | .flushJoin before => if s.writer = .finished then some (s.setTask i (.flushCheck before)) else none
  | .flushCheck before =>
    some ((if s.error then s else { s with flushes := s.flushes ++ [(before, s.file)] }).setTask i .idle)
  | .closeLock => if s.lock.isNone then some ({ s with lock := some i }.setTask i .closeTest) else none
  | .closeTest =>
    some (if s.closed then s.release.setTask i .closeJoin
      else { s with closed := true }.setTask i .closePut)
  | .closePut => some ((s.enqueue .sentinel).release.setTask i .closeJoin)
  | .closeJoin => if s.writer = .finished then some (s.setTask i .closeCheck) else none
  | .closeCheck => some ((if s.error then s else { s with closeReturned := true }).setTask i .idle)

def receive (s : State) (rest : List Item) (delayNs : ℤ) (late : Bool) : Item → State
  | .row w _ preparedNs =>
    let rows := s.rows ++ [⟨w, s.sequence, preparedNs, delayNs⟩]
    { s with
      pending := rest
      rows := rows
      sequence := s.sequence + 1
      writer := if flushEventCount ≤ rows.length ∨ late then .save .loop else .get }
  | .barrier b => { s with pending := rest, writer := .save (.set b) }
  | .sentinel => { s with pending := rest, writer := .save .stop }

/-- A call of the stream raises: some of the text is in the file, and some stays in the buffer. -/
def streamFails (s : State) (text : Text) (moved kept : ℕ) : State :=
  { s with file := s.file ++ text.take moved, buffer := (text.drop moved).take kept, error := true }

def save (s : State) (k : Then) (fails : Bool) (moved kept : ℕ) : State :=
  let text := s.buffer ++ render s.rows
  if s.error then { s with rows := [], writer := k.stage }
  else if s.rows.isEmpty then { s with writer := .flushing k }
  else if fails then { s.streamFails text moved kept with rows := [], writer := k.stage }
  else { s with file := s.file ++ text.take moved, buffer := text.drop moved, writer := .flushing k }

def streamFlush (s : State) (k : Then) (fails : Bool) (moved kept : ℕ) : State :=
  if fails then { s.streamFails s.buffer moved kept with rows := [], writer := k.stage }
  else { s with file := s.file ++ s.buffer, buffer := [], rows := [], writer := k.stage }

def streamClose (s : State) (fails : Bool) (moved kept : ℕ) : State :=
  if fails then { s.streamFails s.buffer moved kept with writer := .finished }
  else { s with file := s.file ++ s.buffer, buffer := [], writer := .finished }

def writePending (s : State) : WriterStage → Action → Option State
  | .get, .take delayNs late =>
    match s.pending with
    | [] => none
    | item :: rest => some (s.receive rest delayNs late item)
  | .get, .timeout => some (if s.rows.isEmpty then s else { s with writer := .save .loop })
  | .save k, .stream fails moved kept => some (s.save k fails moved kept)
  | .flushing k, .stream fails moved kept => some (s.streamFlush k fails moved kept)
  | .setting b, .setEvent => some { s with events := s.events ++ [b], writer := .get }
  | .closing, .stream fails moved kept => some (s.streamClose fails moved kept)
  | _, _ => none

-- A step is one access to what the threads share; `closed` is read outside of the lock, as in the source.
/-- `none` is the writer thread. -/
def next (s : State) : Option Thread × Action → Option (State × Unit)
  | (none, a) => (s.writePending s.writer a).map fun t => (t, ())
  | (some i, .go raises queuedNs preparedNs) => (s.go i raises queuedNs preparedNs (s.tasks i)).map fun t => (t, ())
  | (some i, a) => if s.tasks i = .idle then (s.begin i a).map fun t => (t, ()) else none

def system (prior : Text) : System State ((Option Thread × Action) × Unit) := .ofNext (· = { file := prior }) next

end State

end ClawBox.Events
