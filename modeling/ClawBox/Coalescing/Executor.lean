import ClawBox.Lib.PyDict
import ClawBox.Lib.Transition

namespace ClawBox.Coalescing

open Transition

structure Entry (ω : Type*) where
  operation : ω
  -- the submission that wrote it last
  ticket : ℕ
  dirty : Bool := false
  future : Option ℕ := none
  deriving DecidableEq

/-- Where `_run_coalesced` is; `raised` has an exception in hand that is not recorded yet. -/
inductive Phase (ε : Type*)
  | entering
  | executing
  | raised (exc : ε)
  | settling
  deriving DecidableEq

structure Runner (κ ε : Type*) where
  future : ℕ
  key : κ
  phase : Phase ε := .entering
  deriving DecidableEq

structure State (κ ω ε : Type*) where
  workers : ℕ
  coalesced : PyDict κ (Entry ω) := ∅
  failures : List ε := []
  submittedCount : ℕ := 0
  coalescedCount : ℕ := 0
  executedCount : ℕ := 0
  -- the thread pool: its tasks that no worker took, and those that a worker runs
  futures : ℕ := 0
  queue : List (ℕ × κ) := []
  running : List (Runner κ ε) := []
  shutdown : Bool := false
  -- the calls of `submit_coalesced`, the executions they led to and the tasks that were taken
  submissions : List (κ × ω) := []
  executions : List (κ × ω × ℕ) := []
  started : ℕ := 0
  keyErrors : ℕ := 0
  deriving DecidableEq

inductive Act (κ ω ε : Type*)
  | submit (key : κ) (operation : ω)
  | take
  | enter (r : Runner κ ε)
  | finish (r : Runner κ ε) (exc : Option ε)
  | record (r : Runner κ ε)
  | settle (r : Runner κ ε)
  | close (wait : Bool)
  deriving DecidableEq

inductive Event (κ ω : Type*)
  | returned (future : Option ℕ)
  | rejected
  | executing (key : κ) (operation : ω) (ticket : ℕ)
  deriving DecidableEq

structure Metrics where
  submitted : ℕ
  coalesced : ℕ
  executed : ℕ
  activeKeys : ℕ
  failures : ℕ
  deriving DecidableEq

namespace State

variable {κ ω ε : Type*} [DecidableEq κ] [DecidableEq ε]

def become (s : State κ ω ε) (r : Runner κ ε) (phase : Phase ε) : State κ ω ε :=
  { s with running := { r with phase := phase } :: s.running.erase r }

def leave (s : State κ ω ε) (r : Runner κ ε) : State κ ω ε := { s with running := s.running.erase r }

omit [DecidableEq ε] in
def submitCoalesced (s : State κ ω ε) (key : κ) (operation : ω) : State κ ω ε × Event κ ω :=
  match s.coalesced.get? key with
  | some entry =>
    ({ s with
      submittedCount := s.submittedCount + 1
      submissions := s.submissions ++ [(key, operation)]
      coalesced := s.coalesced.set key
        { entry with operation := operation, ticket := s.submissions.length, dirty := true }
      coalescedCount := s.coalescedCount + 1 }, .returned entry.future)
  | none =>
    if s.shutdown then
      ({ s with
        submittedCount := s.submittedCount + 1
        submissions := s.submissions ++ [(key, operation)]
        coalesced := s.coalesced.set key { operation := operation, ticket := s.submissions.length } }, .rejected)
    else
      ({ s with
        submittedCount := s.submittedCount + 1
        submissions := s.submissions ++ [(key, operation)]
        coalesced := s.coalesced.set key
          { operation := operation, ticket := s.submissions.length, future := some s.futures }
        queue := s.queue ++ [(s.futures, key)]
        futures := s.futures + 1 }, .returned (some s.futures))

def enter (s : State κ ω ε) (r : Runner κ ε) : State κ ω ε × Option (Event κ ω) :=
  match s.coalesced.get? r.key with
  | none => ({ s.leave r with keyErrors := s.keyErrors + 1 }, none)
  | some entry =>
    ({ s.become r .executing with
      coalesced := s.coalesced.set r.key { entry with dirty := false }
      executedCount := s.executedCount + 1
      executions := s.executions ++ [(r.key, entry.operation, entry.ticket)] },
      some (.executing r.key entry.operation entry.ticket))

def settle (s : State κ ω ε) (r : Runner κ ε) : State κ ω ε :=
  match s.coalesced.get? r.key with
  | none => { s.leave r with keyErrors := s.keyErrors + 1 }
  | some entry =>
    if entry.dirty then s.become r .entering else { s.leave r with coalesced := s.coalesced.pop r.key }

-- A step is a section under `_lock`, or what a worker does between two of them.
def next (s : State κ ω ε) : Act κ ω ε → Option (State κ ω ε × Option (Event κ ω))
  | .submit key operation => some ((s.submitCoalesced key operation).1, some (s.submitCoalesced key operation).2)
  | .take =>
    match s.queue with
    | [] => none
    | (future, key) :: rest =>
      if s.running.length < s.workers then
        some ({ s with queue := rest, running := ⟨future, key, .entering⟩ :: s.running, started := s.started + 1 },
          none)
      else none
  | .enter r => if r ∈ s.running ∧ r.phase = .entering then some (s.enter r) else none
  | .finish r exc =>
    if r ∈ s.running ∧ r.phase = .executing then
      match exc with
      | none => some (s.become r .settling, none)
      | some exc => some (s.become r (.raised exc), none)
    else none
  | .record r =>
    if r ∈ s.running then
      match r.phase with
      | .raised exc => some ({ s.become r .settling with failures := s.failures ++ [exc] }, none)
      | _ => none
    else none
  | .settle r => if r ∈ s.running ∧ r.phase = .settling then some (s.settle r, none) else none
  | .close wait => some ({ s with shutdown := true, queue := if wait then s.queue else [] }, none)

omit [DecidableEq κ] [DecidableEq ε] in
def check (s : State κ ω ε) : Option ε := s.failures.head?

omit [DecidableEq κ] [DecidableEq ε] in
def metrics (s : State κ ω ε) : Metrics where
  submitted := s.submittedCount
  coalesced := s.coalescedCount
  executed := s.executedCount
  activeKeys := s.coalesced.entries.length
  failures := s.failures.length

def Start (s : State κ ω ε) : Prop := ∃ workers, s = { workers := max 1 workers }

def system : System (State κ ω ε) (Act κ ω ε × Option (Event κ ω)) := .ofNext Start next

def Quiescent (s : State κ ω ε) : Prop := s.queue = [] ∧ s.running = []

end State

end ClawBox.Coalescing
