import ClawBox.Lib.Transition
import Mathlib.Data.List.Nodup
import Mathlib.Logic.Function.Basic
import Mathlib.Tactic.Tauto

namespace ClawBox.AdmissionLock

abbrev Thread := ℕ

/-- `_Waiter` compares by identity, so each object carries its own `ident`. -/
structure Waiter where
  ident : ℕ
  owner : Thread
  progress : Bool
  deriving DecidableEq

structure Lock where
  owner : Option Thread := none
  ownerProgress : Bool := false
  depth : ℕ := 0
  normal : List Waiter := []
  progress : List Waiter := []
  burst : ℕ := 0
  -- the waiters whose `granted` flag and `ready` event are set
  granted : List Waiter := []
  deriving DecidableEq

structure Saved where
  depth : ℕ
  owner : Thread
  progress : Bool
  deriving DecidableEq

inductive Phase
  | idle
  | waiting (w : Waiter) (timed : Bool) (resume : Option Saved)
  | expired (w : Waiter)
  | restoring (saved : Saved)
  deriving DecidableEq

def Phase.waitsOn : Phase → Option Waiter
  | .waiting w _ _ => some w
  | .expired w => some w
  | _ => none

/-- What a thread knows of itself: `held` counts the acquisitions it was told it has. -/
structure Local where
  phase : Phase := .idle
  held : ℕ := 0
  saved : List Saved := []

structure State where
  lock : Lock
  locals : Thread → Local
  nextIdent : ℕ

inductive Error
  | timeoutForNonBlocking
  | unowned
  | missingWaiter
  deriving DecidableEq

inductive Reply
  | blocked
  | returned (result : Bool)
  | raised (e : Error)
  | saved (s : Saved)
  | done
  deriving DecidableEq

structure Event where
  reply : Reply
  handoff : Option Waiter := none
  deriving DecidableEq

def Lock.grant (l : Lock) (w : Waiter) : Lock :=
  { l with owner := some w.owner, depth := 1, ownerProgress := w.progress, granted := w :: l.granted }

def Lock.handoff (l : Lock) : Lock × Option Waiter :=
  match l.progress, l.normal with
  | w :: rest, [] => (Lock.grant { l with progress := rest, burst := l.burst + 1 } w, some w)
  | w :: rest, v :: more =>
    if l.burst < 8 then (Lock.grant { l with progress := rest, burst := l.burst + 1 } w, some w)
    else (Lock.grant { l with normal := more, burst := 0 } v, some v)
  | [], v :: more => (Lock.grant { l with normal := more, burst := 0 } v, some v)
  | [], [] => ({ l with owner := none, depth := 0, burst := 0, ownerProgress := false }, none)

def State.setLocal (s : State) (t : Thread) (x : Local) : State :=
  { s with locals := Function.update s.locals t x }

def Local.acquired (x : Local) : Option Saved → Local
  | none => { x with phase := .idle, held := x.held + 1 }
  | some st => { x with phase := .restoring st }

def resumed : Option Saved → Reply
  | none => .returned true
  | some _ => .done

def State.acquire (s : State) (t : Thread) (blocking : Bool) (timeout : ℤ) (progress : Bool)
    (resume : Option Saved) : State × Event :=
  let l := s.lock
  if !blocking && timeout != -1 then (s, ⟨.raised .timeoutForNonBlocking, none⟩)
  else if l.owner = some t then
    ({ s with lock := { l with depth := l.depth + 1 } }.setLocal t ((s.locals t).acquired resume),
      ⟨resumed resume, none⟩)
  else if l.owner = none then
    ({ s with lock := { l with owner := some t, depth := 1, ownerProgress := progress } }.setLocal t
      ((s.locals t).acquired resume), ⟨resumed resume, none⟩)
  else if !blocking then (s, ⟨.returned false, none⟩)
  else
    let w : Waiter := ⟨s.nextIdent, t, progress⟩
    let queued := if progress then { l with progress := l.progress ++ [w] } else { l with normal := l.normal ++ [w] }
    ({ s with lock := queued, nextIdent := s.nextIdent + 1 }.setLocal t
      { s.locals t with phase := .waiting w (timeout != -1) resume }, ⟨.blocked, none⟩)

def State.recheck (s : State) (t : Thread) (w : Waiter) : State × Event :=
  let l := s.lock
  if w ∈ l.granted then (s.setLocal t ((s.locals t).acquired none), ⟨.returned true, none⟩)
  else
    let gone := s.setLocal t { s.locals t with phase := .idle }
    if w.progress then
      if w ∈ l.progress then
        ({ gone with lock := { l with progress := l.progress.erase w } }, ⟨.returned false, none⟩)
      else (gone, ⟨.raised .missingWaiter, none⟩)
    else if w ∈ l.normal then
      ({ gone with lock := { l with normal := l.normal.erase w } }, ⟨.returned false, none⟩)
    else (gone, ⟨.raised .missingWaiter, none⟩)

def State.release (s : State) (t : Thread) : State × Event :=
  if s.lock.owner ≠ some t then (s, ⟨.raised .unowned, none⟩)
  else
    let l := { s.lock with depth := s.lock.depth - 1 }
    let x := { s.locals t with held := (s.locals t).held - 1 }
    if l.depth = 0 then ({ s with lock := l.handoff.1 }.setLocal t x, ⟨.done, l.handoff.2⟩)
    else ({ s with lock := l }.setLocal t x, ⟨.done, none⟩)

def State.releaseSave (s : State) (t : Thread) : State × Event :=
  if s.lock.owner ≠ some t then (s, ⟨.raised .unowned, none⟩)
  else
    let st : Saved := ⟨s.lock.depth, t, s.lock.ownerProgress⟩
    let x := { s.locals t with held := 0, saved := st :: (s.locals t).saved }
    ({ s with lock := s.lock.handoff.1 }.setLocal t x, ⟨.saved st, s.lock.handoff.2⟩)

def State.storeDepth (s : State) (t : Thread) (st : Saved) : State × Event :=
  ({ s with lock := { s.lock with depth := st.depth } }.setLocal t
    { s.locals t with phase := .idle, held := st.depth }, ⟨.done, none⟩)

inductive Action
  | acquire (t : Thread) (blocking : Bool) (timeout : ℤ) (progress : Bool)
  | wake (t : Thread)
  | expire (t : Thread)
  | recheck (t : Thread)
  | release (t : Thread)
  | releaseSave (t : Thread)
  | acquireRestore (t : Thread) (st : Saved)
  | storeDepth (t : Thread)

-- A step is a section under `_guard`, or a thread that returns from `waiter.ready.wait`.
def next (s : State) : Action → Option (State × Event)
  | .acquire t blocking timeout progress =>
    match (s.locals t).phase with
    | .idle => some (s.acquire t blocking timeout progress none)
    | _ => none
  | .wake t =>
    match (s.locals t).phase with
    | .waiting w _ resume =>
      if w ∈ s.lock.granted then some (s.setLocal t ((s.locals t).acquired resume), ⟨resumed resume, none⟩) else none
    | _ => none
  -- a timed wait may report a timeout although the event was set meanwhile
  | .expire t =>
    match (s.locals t).phase with
    | .waiting w true none => some (s.setLocal t { s.locals t with phase := .expired w }, ⟨.done, none⟩)
    | _ => none
  | .recheck t =>
    match (s.locals t).phase with
    | .expired w => some (s.recheck t w)
    | _ => none
  | .release t =>
    match (s.locals t).phase with
    | .idle => some (s.release t)
    | _ => none
  | .releaseSave t =>
    match (s.locals t).phase with
    | .idle => some (s.releaseSave t)
    | _ => none
  | .acquireRestore t st =>
    match (s.locals t).phase with
    | .idle => if st ∈ (s.locals t).saved then some (s.acquire t true (-1) st.progress (some st)) else none
    | _ => none
  | .storeDepth t =>
    match (s.locals t).phase with
    | .restoring st => some (s.storeDepth t st)
    | _ => none

def initial : State := ⟨{}, fun _ => {}, 0⟩

def system : Transition.System State (Action × Event) := .ofNext (· = initial) next

end ClawBox.AdmissionLock
