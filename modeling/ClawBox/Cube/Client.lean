import ClawBox.Cube.Journal
import ClawBox.Lib.PyDict
import ClawBox.Lib.Transition

namespace ClawBox.Cube

open Transition JsonText

abbrev Metadata := PyDict Text Text

def taskKey : Text := "clawbox.task-uid".toList

def Ownership.metadata (o : Ownership) : Metadata :=
  (((((PyDict.empty.set "clawbox.run".toList o.runId).set "clawbox.attempt".toList o.attemptId).set
    taskKey o.taskUid).set "clawbox.experiment".toList o.experimentId).set "clawbox.session".toList o.sessionId).set
    "clawbox.policy-name".toList o.policyName

def Ownership.matches (o : Ownership) (m : Metadata) : Bool := o.metadata.entries.all fun e => m.get? e.1 = some e.2

inductive KillStage
  | waiting
  -- without a handle: `list_v2`
  | lookup
  | delete
  -- `list_v2` after a delete that raised
  | recheck
  | finished
  | failed
  deriving DecidableEq

structure Kill where
  id : Text
  attempts : ℕ := 10
  stage : KillStage := .waiting
  deriving DecidableEq

inductive CleanupStage
  | listing (journalIds : List Text)
  | killing (kills : List Kill)
  -- `list_owned_sandboxes`
  | remaining (errors : List Text)
  | snapshots (errors remaining left snapshotErrors missing : List Text)

/-- `kill_owned_sandboxes`; `missing` are the snapshots that the service called missing. -/
structure Cleanup where
  owner : Text
  stage : CleanupStage

inductive Task
  -- `create_sandbox`
  | creating (o : Ownership)
  | resolving (o : Ownership) (left : ℕ)
  | recovered (o : Ownership) (id : Text)
  | probing (o : Ownership) (id : Text) (left : ℕ)
  -- `create_snapshot`
  | snapshotting (o : Ownership)
  -- the last record of either
  | recording (e : Entry)
  | killing (k : Kill)
  -- `kill_sandbox` of a handle
  | closing (id : Text)
  | cleaning (c : Cleanup)

structure World where
  journal : Text := []
  -- the records that returned
  acked : List Entry := []
  inventory : PyDict Text Metadata := ∅
  snapshots : PySet Text := ∅
  handles : PySet Text := ∅
  tasks : PyDict ℕ Task := ∅

inductive CreateAnswer
  | created (id : Text)
  -- a timeout, a dropped connection or a gateway error
  | ambiguous (made : Option Text)
  | rejected

inductive KillAnswer
  | ok
  | raised (removed : Bool)

inductive DeleteAnswer
  | ok
  -- the text of the exception, and whether it is about a missing snapshot
  | raised (text : Text) (removed missing : Bool)

inductive Action
  | create (t : ℕ) (o : Ownership)
  | created (t : ℕ) (a : CreateAnswer)
  | resolve (t : ℕ) (ok : Bool)
  | probe (t : ℕ) (ok : Bool)
  | append (t : ℕ) (written : ℕ) (ending : Ending)
  | snapshot (t : ℕ) (o : Ownership)
  | snapshotted (t : ℕ) (id : Option Text)
  | kill (t : ℕ) (id : Text)
  | killStep (t : ℕ) (a : KillAnswer)
  | close (t : ℕ) (id : Text)
  | closed (t : ℕ) (a : KillAnswer)
  | cleanup (t : ℕ) (owner : Text)
  | listed (t : ℕ) (ok : Bool)
  | poolStep (t : ℕ) (i : ℕ) (a : KillAnswer)
  | joined (t : ℕ)
  | relisted (t : ℕ) (ok : Bool)
  | deleteSnapshot (t : ℕ) (a : DeleteAnswer)
  | finish (t : ℕ)
  -- the process is gone and a new one goes on with the journal
  | crash
  -- the service, on its own or for a client that does not listen any more
  | arrive (id : Text) (m : Metadata)
  | vanish (id : Text)

inductive Event
  | silent
  | returned
  | raised
  | cleaned (owner : Text) (missing : List Text)
  deriving DecidableEq

def World.put (w : World) (t : ℕ) (x : Task) : World := { w with tasks := w.tasks.set t x }

def World.done (w : World) (t : ℕ) : World := { w with tasks := w.tasks.pop t }

def World.remove (w : World) (id : Text) : World := { w with inventory := w.inventory.pop id }

def World.enter (w : World) (id : Text) (m : Metadata) : Option World :=
  if id = [] ∨ (w.inventory.get? id).isSome then none else some { w with inventory := w.inventory.set id m }

def World.killProcess (w : World) : World := { w with tasks := ∅, handles := ∅ }

def Kill.retry (k : Kill) (s : KillStage) : Kill :=
  if k.attempts ≤ 1 then { k with attempts := 0, stage := .failed }
  else { k with attempts := k.attempts - 1, stage := s }

def Kill.step (k : Kill) (a : KillAnswer) (w : World) : Option (Kill × World) :=
  match k.stage, a with
  | .waiting, _ =>
    some ({ k with stage := if (w.handles.get? k.id).isSome then .delete else .lookup },
      { w with handles := w.handles.discard k.id })
  | .lookup, .ok => some ({ k with stage := if (w.inventory.get? k.id).isSome then .delete else .finished }, w)
  | .lookup, .raised _ => some (k.retry .lookup, w)
  | .delete, .ok => some ({ k with stage := .finished }, w.remove k.id)
  | .delete, .raised removed => some ({ k with stage := .recheck }, if removed then w.remove k.id else w)
  | .recheck, .ok => some (if (w.inventory.get? k.id).isSome then k.retry .lookup else { k with stage := .finished }, w)
  -- the handle stays
  | .recheck, .raised _ => some (k.retry .delete, w)
  | .finished, _ => none
  | .failed, _ => none

def owned (owner : Text) (journalIds : List Text) (inventory : PyDict Text Metadata) : List Text :=
  ((inventory.entries.filter fun e => journalIds.contains e.1 || e.2.get? taskKey = some owner).map Prod.fst).filter
    fun id => id ≠ []

def lower (s : Text) : Text := s.map Char.toLower

def readsMissing (s : Text) : Bool := decide ("not found".toList <:+: lower s) || decide ("404".toList <:+: s)

section Next

variable (show' : Json → Text)

def Cleanup.finish (c : Cleanup) (errors remaining snapshotErrors missing : List Text) : Event :=
  if errors = [] ∧ remaining = [] ∧ snapshotErrors = [] then .cleaned c.owner missing else .raised

def appendStep (w : World) (t : ℕ) (e : Entry) (after : Option Task) (written : ℕ) (ending : Ending) :
    Option (World × Event) :=
  match record e written ending w.journal with
  | none => none
  | some journal =>
    match ending with
    | .returned =>
      let w := { w with journal, acked := w.acked ++ [e] }
      match after with
      | none => some (w.done t, .returned)
      | some x => some (w.put t x, .silent)
    | .raised => some ({ w with journal }.done t, .raised)
    | .killed => some ({ w with journal }.killProcess, .silent)

def retryTask (w : World) (t : ℕ) (left : ℕ) (again : ℕ → Task) : World × Event :=
  if left ≤ 1 then (w.done t, .raised) else (w.put t (again (left - 1)), .silent)

def cleanupStep (w : World) (t : ℕ) (c : Cleanup) : Action → Option (World × Event)
  | .listed _ ok =>
    match c.stage with
    | .listing journalIds =>
      if ok then
        let ids := owned c.owner journalIds w.inventory
        some ({ w with handles := ids.foldl PySet.add w.handles }.put t
          (.cleaning { c with stage := .killing (ids.map fun id => { id }) }), .silent)
      else some (w.done t, .raised)
    | _ => none
  | .poolStep _ i a =>
    match c.stage with
    | .killing kills =>
      match kills[i]? with
      | none => none
      | some k => (k.step a w).map fun r => (r.2.put t (.cleaning { c with stage := .killing (kills.set i r.1) }),
        .silent)
    | _ => none
  | .joined _ =>
    match c.stage with
    | .killing kills =>
      if kills.all fun k => k.stage = .finished || k.stage = .failed then
        some (w.put t (.cleaning { c with
          stage := .remaining ((kills.filter fun k => k.stage = .failed).map Kill.id) }), .silent)
      else none
    | _ => none
  | .relisted _ ok =>
    match c.stage with
    | .remaining errors =>
      if ok then
        let remaining := (w.inventory.entries.filter fun e => e.2.get? taskKey = some c.owner).map Prod.fst
        match snapshotIds show' (some c.owner) w.journal with
        | none => some (w.done t, .raised)
        | some left => some (w.put t (.cleaning { c with stage := .snapshots errors remaining left [] [] }), .silent)
      else some (w.done t, .raised)
    | _ => none
  | .deleteSnapshot _ a =>
    match c.stage with
    | .snapshots errors remaining (id :: left) snapshotErrors missing =>
      match a with
      | .ok =>
        some ({ w with snapshots := w.snapshots.discard id }.put t
          (.cleaning { c with stage := .snapshots errors remaining left snapshotErrors missing }), .silent)
      | .raised text removed isMissing =>
        let missing := if isMissing then missing ++ [id] else missing
        let snapshotErrors := if readsMissing text then snapshotErrors else snapshotErrors ++ [id]
        some ({ w with snapshots := if removed then w.snapshots.discard id else w.snapshots }.put t
          (.cleaning { c with stage := .snapshots errors remaining left snapshotErrors missing }), .silent)
    | _ => none
  | .finish _ =>
    match c.stage with
    | .snapshots errors remaining [] snapshotErrors missing =>
      some (w.done t, c.finish errors remaining snapshotErrors missing)
    | _ => none
  | _ => none

def Action.task : Action → Option ℕ
  | .created t _ | .resolve t _ | .probe t _ | .append t _ _ | .snapshotted t _ | .killStep t _ | .closed t _ |
    .listed t _
  | .poolStep t _ _ | .joined t | .relisted t _ | .deleteSnapshot t _ | .finish t => some t
  | _ => none

def taskStep (w : World) (t : ℕ) : Task → Action → Option (World × Event)
  | .creating o, .created _ (.created id) => (w.enter id o.metadata).map fun w =>
      ({ w with handles := w.handles.add id }.put t (.recording ⟨.sandbox, id, o⟩), .silent)
  | .creating o, .created _ (.ambiguous none) => some (w.put t (.resolving o 10), .silent)
  | .creating o, .created _ (.ambiguous (some id)) => (w.enter id o.metadata).map fun w =>
    (w.put t (.resolving o 10), .silent)
  | .creating _, .created _ .rejected => some (w.done t, .raised)
  | .resolving o left, .resolve _ true =>
    match w.inventory.entries.filter fun e => o.matches e.2 with
    | [e] => some (w.put t (.recovered o e.1), .silent)
    | _ => some (retryTask w t left (.resolving o))
  | .resolving o left, .resolve _ false => some (retryTask w t left (.resolving o))
  | .recovered o id, .append _ written ending =>
    appendStep w t ⟨.sandbox, id, o⟩ (some (.probing o id 10)) written ending
  | .probing o id _, .probe _ true => some ({ w with handles := w.handles.add id }.put t (.recording ⟨.sandbox, id, o⟩),
    .silent)
  | .probing o id left, .probe _ false => some (retryTask w t left (.probing o id))
  | .recording e, .append _ written ending => appendStep w t e none written ending
  | .snapshotting o, .snapshotted _ (some id) =>
    some ({ w with snapshots := w.snapshots.add id }.put t (.recording ⟨.snapshot, id, o⟩), .silent)
  | .snapshotting _, .snapshotted _ none => some (w.done t, .raised)
  | .killing k, .killStep _ a => (k.step a w).map fun r =>
      if r.1.stage = .finished then (r.2.done t, .returned)
      else if r.1.stage = .failed then (r.2.done t, .raised)
      else (r.2.put t (.killing r.1), .silent)
  | .closing id, .closed _ .ok => some ({ w.remove id with handles := w.handles.discard id }.done t, .returned)
  | .closing id, .closed _ (.raised removed) =>
    some ({ (if removed then w.remove id else w) with handles := w.handles.discard id }.done t, .raised)
  | .cleaning c, a => cleanupStep show' w t c a
  | _, _ => none

def begin (w : World) (t : ℕ) (x : Task) : Option (World × Event) :=
  if (w.tasks.get? t).isSome then none else some (w.put t x, .silent)

-- A step is a call of the SDK or an append to the journal; a call that raises may have had its effect.
def next (w : World) (a : Action) : Option (World × Event) :=
  match a.task with
  | some t => (w.tasks.get? t).bind fun x => taskStep show' w t x a
  | none =>
    match a with
    | .create t o => begin w t (.creating o)
    | .snapshot t o => begin w t (.snapshotting o)
    | .kill t id => begin w t (.killing { id })
    | .close t id => begin w t (.closing id)
    | .cleanup t owner =>
      match sandboxIds show' (some owner) w.journal with
      | none => some (w, .raised)
      | some journalIds => begin w t (.cleaning ⟨owner, .listing journalIds⟩)
    | .crash => some (w.killProcess, .silent)
    | .arrive id m => (w.enter id m).map fun w => (w, .silent)
    | .vanish id => some (w.remove id, .silent)
    | _ => none

end Next

def Start (w : World) : Prop :=
  w.journal = [] ∧ w.acked = [] ∧ w.tasks = ∅ ∧ w.handles = ∅ ∧ ∀ id m, w.inventory.get? id = some m → id ≠ []

def system (show' : Json → Text) : System World (Action × Event) := .ofNext Start (next show')

end ClawBox.Cube
