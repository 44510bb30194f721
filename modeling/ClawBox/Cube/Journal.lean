import ClawBox.Lib.JsonCut
import Mathlib

namespace ClawBox.Cube

open JsonText

abbrev Text := List Char

structure Ownership where
  runId : Text
  attemptId : Text
  taskUid : Text
  experimentId : Text
  sessionId : Text
  policyName : Text
  deriving DecidableEq

def Ownership.json (o : Ownership) : Json :=
  .obj [("attempt_id".toList, .str o.attemptId), ("experiment_id".toList, .str o.experimentId),
    ("policy_name".toList, .str o.policyName), ("run_id".toList, .str o.runId),
    ("session_id".toList, .str o.sessionId), ("task_uid".toList, .str o.taskUid)]

inductive Kind
  | sandbox
  | snapshot
  deriving DecidableEq

def Kind.text : Kind → Text
  | .sandbox => "sandbox".toList
  | .snapshot => "snapshot".toList

def Kind.field : Kind → Text
  | .sandbox => "sandbox_id".toList
  | .snapshot => "snapshot_id".toList

structure Entry where
  kind : Kind
  id : Text
  ownership : Ownership
  deriving DecidableEq

def Entry.members (e : Entry) : List (Text × Json) :=
  [("kind".toList, .str e.kind.text), ("ownership".toList, e.ownership.json), (e.kind.field, .str e.id)]

def Entry.json (e : Entry) : Json := .obj e.members

def Entry.body (e : Entry) : Text := dumps asciiEscape e.json

def Entry.line (e : Entry) : Text := e.body ++ ['\n']

/-- How an append ends: `returned` after `fsync`, `raised`, or the process is gone. -/
inductive Ending
  | returned
  | raised
  | killed
  deriving DecidableEq

def record (e : Entry) (written : ℕ) : Ending → Text → Option Text
  | .returned, file => if written = e.line.length then some (file ++ e.line) else none
  | _, file => some (file ++ e.line.take written)

def isLineBreak (c : Char) : Bool :=
  c = '\n' || c = '\r' || c = Char.ofNat 0x0b || c = Char.ofNat 0x0c || c = Char.ofNat 0x1c || c = Char.ofNat 0x1d ||
    c = Char.ofNat 0x1e || c = Char.ofNat 0x85 || c = Char.ofNat 0x2028 || c = Char.ofNat 0x2029

def splitlines : Text → List Text
  | [] => []
  | '\r' :: '\n' :: r => [] :: splitlines r
  | c :: r =>
    if isLineBreak c then [] :: splitlines r
    else match splitlines r with
      | [] => [[c]]
      | l :: ls => (c :: l) :: ls

def falsy : Json → Bool
  | .null => true
  | .bool b => !b
  | .num t => (t.takeWhile fun c => c ≠ 'e' && c ≠ 'E').all fun c => c = '-' || c = '0' || c = '.'
  | .str s => s.isEmpty
  | .arr l => l.isEmpty
  | .obj l => l.isEmpty

def lookup (k : Text) (l : List (Text × Json)) : Option Json := (l.reverse.find? fun m => m.1 = k).map Prod.snd

inductive Row
  | skipped
  | found (id : Text)
  -- the `AttributeError` of `owner.get`, which nothing catches
  | broken

section Read

-- `str` of a value that is not a string
variable (show' : Json → Text)

def str : Json → Text
  | .str s => s
  | j => show' j

def ownedBy (owner : Json) (taskUid : Text) : Option Bool :=
  if falsy owner then some false
  else match owner with
    | .obj l => some (match lookup "task_uid".toList l with
      | some (.str s) => s = taskUid
      | _ => false)
    | _ => none

def readLine (field : Text) (taskUid : Option Text) (line : Text) : Row :=
  match loads line with
  | some (.obj l) =>
    match lookup field l with
    | none => .skipped
    | some v =>
      match taskUid with
      | none => .found (str show' v)
      | some uid =>
        match ownedBy ((lookup "ownership".toList l).getD .null) uid with
        | none => .broken
        | some true => .found (str show' v)
        | some false => .skipped
  | _ => .skipped

def collect : List Text → List Row → Option (List Text)
  | seen, [] => some seen
  | seen, .skipped :: rows => collect seen rows
  | _, .broken :: _ => none
  | seen, .found id :: rows => if id ∈ seen then collect seen rows else collect (seen ++ [id]) rows

def ids (field : Text) (taskUid : Option Text) (file : Text) : Option (List Text) :=
  collect [] ((splitlines file).map (readLine show' field taskUid))

def sandboxIds (taskUid : Option Text) (file : Text) : Option (List Text) := ids show' Kind.sandbox.field taskUid file

def snapshotIds (taskUid : Option Text) (file : Text) : Option (List Text) := ids show' Kind.snapshot.field taskUid file

end Read

end ClawBox.Cube
