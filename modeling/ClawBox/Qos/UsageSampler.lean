import ClawBox.Lib.PyText
import ClawBox.Lib.Tenures
import ClawBox.Lib.Transition
import Mathlib.Data.List.Dedup
import Mathlib.Data.List.Perm.Basic
import Mathlib.Data.Rat.Defs
import Mathlib.Logic.Function.Basic

namespace ClawBox.Qos

open Fields Transition

inductive QosClass
  | ls
  | be
  deriving DecidableEq

def QosClass.ofText? (s : String) : Option QosClass :=
  if s = "ls" then some .ls else if s = "be" then some .be else none

abbrev Key := ℤ × ℤ

def readStat (tid : ℤ) (stat : Option Text) : Option (Key × ℤ) := do
  let text ← stat
  let rest ← afterLast ')' text
  let fields := PyText.split rest
  let start ← fields[19]?.bind PyText.int?
  let user ← fields[11]?.bind PyText.int?
  let system ← fields[12]?.bind PyText.int?
  some ((tid, start), user + system)

structure Reading where
  result : Option (Key × ℤ)
  interval : ℕ

/-- Where the last reading of a thread comes from: a registration, or a sample that ended later. -/
inductive Source
  | registered (taken : ℕ)
  | sampled (taken ended : ℕ)
  deriving DecidableEq

structure Thread (V : Type) where
  vm : V
  qos : QosClass
  ticks : ℤ
  readEpoch : ℕ
  deriving DecidableEq

structure Changes where
  newThreads : ℕ := 0
  departedThreads : ℕ := 0
  lostExitTailThreads : ℕ := 0
  registrationFailures : ℕ := 0

def Changes.missing (c : Changes) : ℕ := c.lostExitTailThreads + c.registrationFailures

inductive Phase (V : Type)
  | idle
  | registering (vm : V) (qos : QosClass) (epoch : ℕ) (todo : List ℤ) (readings : List (ℤ × Reading))
  | sampling (started : ℚ) (todo : List (Key × Thread V)) (readings : List (Key × Thread V × Reading))

structure Usage (V : Type) where
  threads : PyDict Key (Thread V) := ∅
  vmKeys : PyDict V (PySet Key) := ∅
  tidKeys : PyDict ℤ Key := ∅
  pending : QosClass → Changes := fun _ => {}
  totalTicks : QosClass → ℤ := fun _ => 0
  totalSamples : QosClass → ℕ := fun _ => 0
  totalLost : QosClass → ℕ := fun _ => 0
  lastSample : ℚ
  sampleEpoch : ℕ := 0
  -- what the accounts are held against; the source has no such record
  book : Tenures.Book Key (V × QosClass) Source := {}

structure Tally where
  ticks : QosClass → ℤ := fun _ => 0
  observed : QosClass → ℕ := fun _ => 0
  crossed : QosClass → ℕ := fun _ => 0

def Tally.add {V : Type} (t : Tally) (state : Thread V) (epoch : ℕ) (ticks : ℤ) : Tally where
  ticks := Function.update t.ticks state.qos (t.ticks state.qos + (ticks - state.ticks))
  observed := Function.update t.observed state.qos (t.observed state.qos + 1)
  crossed := Function.update t.crossed state.qos (t.crossed state.qos + if state.readEpoch ≠ epoch then 1 else 0)

structure ClassReport where
  changes : Changes
  sampledThreads : ℕ
  unalignedIntervalThreads : ℕ
  registeredThreads : ℕ
  observedCpuSeconds : Option ℚ
  observedLoadFraction : Option ℚ
  observedLoadFractionLowerBound : Option ℚ
  complete : Bool
  lostExitTail : Bool
  cumulativeObservedCpuSeconds : Option ℚ
  cumulativeComplete : Bool

structure Capacity where
  logicalCpus : ℕ
  hz : ℕ
  cpus_pos : 0 < logicalCpus
  hz_pos : 0 < hz

namespace Usage

variable {V : Type}

def change (s : Usage V) (c : QosClass) (f : Changes → Changes) : Usage V :=
  { s with pending := Function.update s.pending c (f (s.pending c)) }

def countThreads (s : Usage V) (p : Thread V → Bool) : ℕ := s.threads.values.countP p

def classReport (cap : Capacity) (s : Usage V) (tally : Tally) (epoch : ℕ) (elapsed : ℚ) (c : QosClass) : ClassReport :=
  let changes := s.pending c
  let missing := changes.missing
  let unaligned := tally.crossed c + s.countThreads fun t => t.qos = c && t.readEpoch ≠ epoch + 1
  let totalTicks := s.totalTicks c + tally.ticks c
  let totalSamples := s.totalSamples c + tally.observed c
  let totalLost := s.totalLost c + missing
  let seconds : Option ℚ :=
    if tally.observed c ≠ 0 ∨ ¬(missing ≠ 0 ∨ unaligned ≠ 0) then some (tally.ticks c / cap.hz) else none
  let load := if 0 < elapsed then seconds.map fun x => x / elapsed / cap.logicalCpus else none
  { changes := changes
    sampledThreads := tally.observed c
    unalignedIntervalThreads := unaligned
    registeredThreads := s.countThreads fun t => t.qos = c
    observedCpuSeconds := seconds
    observedLoadFraction := if ¬(missing ≠ 0 ∨ unaligned ≠ 0) then load else none
    observedLoadFractionLowerBound := if missing ≠ 0 ∧ unaligned = 0 then load else none
    complete := missing = 0 && unaligned = 0
    lostExitTail := changes.lostExitTailThreads ≠ 0
    cumulativeObservedCpuSeconds := if totalSamples ≠ 0 ∨ totalLost = 0 then some (totalTicks / cap.hz) else none
    cumulativeComplete := totalLost = 0 }

def settle (s : Usage V) (tally : Tally) : Usage V :=
  { s with
    totalTicks := fun c => s.totalTicks c + tally.ticks c
    totalSamples := fun c => s.totalSamples c + tally.observed c
    totalLost := fun c => s.totalLost c + (s.pending c).missing
    pending := fun _ => {}
    book := s.book.turn }

variable [DecidableEq V]

def without (s : Usage V) (key : Key) (state : Thread V) (keys : PySet Key) : Usage V :=
  ({ s with
    threads := s.threads.pop key
    vmKeys := s.vmKeys.set state.vm (keys.discard key)
    tidKeys := s.tidKeys.pop key.1
    book := s.book.close key } : Usage V).change state.qos fun c =>
      { c with departedThreads := c.departedThreads + 1, lostExitTailThreads := c.lostExitTailThreads + 1 }

def drop (s : Usage V) (key : Key) : Option (Usage V) :=
  match s.threads.get? key with
  | none => none
  | some state =>
    match s.vmKeys.get? state.vm with
    | none => none
    | some keys => some (s.without key state keys)

def dropAll (s : Usage V) : List Key → Option (Usage V)
  | [] => some s
  | key :: rest => (s.drop key).bind fun t => t.dropAll rest

def withThread (s : Usage V) (key : Key) (state : Thread V) (keys : PySet Key) (taken : ℕ) : Usage V :=
  ({ s with
    threads := s.threads.set key state
    tidKeys := s.tidKeys.set key.1 key
    vmKeys := s.vmKeys.set state.vm (keys.add key)
    book := s.book.enter key (state.vm, state.qos) state.ticks (.registered taken) } : Usage V).change state.qos
      fun c =>
      { c with newThreads := c.newThreads + 1 }

def owner (s : Usage V) (key : Key) : Option (V × QosClass) := (s.threads.get? key).map fun t => (t.vm, t.qos)

def displaced (s : Usage V) (vm : V) (qos : QosClass) (key : Key) : Option Key :=
  (s.tidKeys.get? key.1).filter fun previous => previous ≠ key || s.owner previous ≠ some (vm, qos)

def displace (s : Usage V) (vm : V) (qos : QosClass) (key : Key) : Option (Usage V) :=
  match s.displaced vm qos key with
  | none => some s
  | some previous => s.drop previous

def enterReading (vm : V) (qos : QosClass) (epoch : ℕ) (s : Usage V) (r : Reading) : Option (Usage V) :=
  match r.result with
  | none => some s
  | some (key, ticks) =>
    (s.displace vm qos key).bind fun t =>
      if (t.threads.get? key).isSome then some t
      else
        match t.vmKeys.get? vm with
        | none => none
        | some keys => some (t.withThread key ⟨vm, qos, ticks, epoch⟩ keys r.interval)

def enterReadings (vm : V) (qos : QosClass) (epoch : ℕ) (s : Usage V) : List (ℤ × Reading) → Option (Usage V)
  | [] => some s
  | r :: rest => (enterReading vm qos epoch s r.2).bind fun t => enterReadings vm qos epoch t rest

def vmSet (s : Usage V) (vm : V) : PySet Key := (s.vmKeys.get? vm).getD ∅

def enter (s : Usage V) (vm : V) (qos : QosClass) (epoch : ℕ) (readings : List (ℤ × Reading)) : Option (Usage V) :=
  let present := readings.filterMap fun r => r.2.result.map Prod.fst
  let failures := readings.countP fun r => r.2.result.isNone
  let s := s.change qos fun c => { c with registrationFailures := c.registrationFailures + failures }
  (s.dropAll ((s.vmSet vm).keys.filter (· ∉ present))).bind fun t =>
    enterReadings vm qos epoch { t with vmKeys := t.vmKeys.set vm (t.vmSet vm) } readings

def accepted (key : Key) (state : Thread V) (r : Reading) : Option ℤ :=
  match r.result with
  | none => none
  | some (found, ticks) => if found ≠ key ∨ ticks < state.ticks then none else some ticks

def recorded (s : Usage V) (key : Key) (state : Thread V) (epoch : ℕ) (ticks : ℤ) (taken : ℕ) : Usage V :=
  { s with
    threads := s.threads.set key { state with ticks := ticks, readEpoch := epoch + 1 }
    book := s.book.read key ticks (.sampled taken epoch) }

def recordReading (epoch : ℕ) (s : Usage V) (tally : Tally) (key : Key) (state : Thread V) (r : Reading) :
    Option (Usage V × Tally) :=
  -- registration changed ownership during proc I/O
  if s.threads.get? key ≠ some state then some (s, tally)
  else
    match accepted key state r with
    | none => (s.drop key).map fun t => (t, tally)
    | some ticks => some (s.recorded key state epoch ticks r.interval, tally.add state epoch ticks)

def recordReadings (epoch : ℕ) (s : Usage V) (tally : Tally) : List (Key × Thread V × Reading) →
    Option (Usage V × Tally)
  | [] => some (s, tally)
  | (key, state, r) :: rest =>
    (recordReading epoch s tally key state r).bind fun u => recordReadings epoch u.1 u.2 rest

def report (cap : Capacity) (s : Usage V) (sampledAt : ℚ) (readings : List (Key × Thread V × Reading)) :
    Option (Usage V × (QosClass → ClassReport)) :=
  let elapsed := sampledAt - s.lastSample
  let epoch := s.sampleEpoch
  (recordReadings epoch { s with lastSample := sampledAt, sampleEpoch := epoch + 1 } {} readings).map fun u =>
    (u.1.settle u.2, u.1.classReport cap u.2 epoch elapsed)

end Usage

structure Calls (V : Type) where
  usage : Usage V
  phase : ℕ → Phase V := fun _ => .idle

inductive Act (V : Type)
  | register (th : ℕ) (vm : V) (qosClass : String) (tids order : List ℤ)
  | readTid (th : ℕ) (stat : Option Text)
  | enter (th : ℕ)
  | sample (th : ℕ) (now : ℚ)
  | readKey (th : ℕ) (stat : Option Text)
  | report (th : ℕ) (now : ℚ)

inductive Event
  | running
  | returned
  | reported (elapsed readSeconds : ℚ) (classes : QosClass → ClassReport)
  | raised

namespace Calls

variable {V : Type}

def setPhase (s : Calls V) (th : ℕ) (p : Phase V) : Calls V := { s with phase := Function.update s.phase th p }

variable [DecidableEq V]

-- Threads read `/proc` outside of the lock and hand in what they have read in one locked step.
def next (cap : Capacity) (s : Calls V) : Act V → Option (Calls V × Event)
  | .register th vm qosClass tids order =>
    match s.phase th with
    | .idle =>
      match QosClass.ofText? qosClass with
      | none => some (s, .returned)
      | some qos =>
        -- `set(tids)` comes in some order
        if order.Perm tids.dedup then some (s.setPhase th (.registering vm qos s.usage.sampleEpoch order []), .running)
        else none
    | _ => none
  | .readTid th stat =>
    match s.phase th with
    | .registering vm qos epoch (tid :: todo) readings =>
      some (s.setPhase th
        (.registering vm qos epoch todo (readings ++ [(tid, ⟨readStat tid stat, s.usage.book.interval⟩)])), .running)
    | _ => none
  | .enter th =>
    match s.phase th with
    | .registering vm qos epoch [] readings =>
      match s.usage.enter vm qos epoch readings with
      | none => some (s.setPhase th .idle, .raised)
      | some usage => some (({ s with usage := usage } : Calls V).setPhase th .idle, .returned)
    | _ => none
  | .sample th now =>
    match s.phase th with
    | .idle => some (s.setPhase th (.sampling now s.usage.threads.entries []), .running)
    | _ => none
  | .readKey th stat =>
    match s.phase th with
    | .sampling started ((key, state) :: todo) readings =>
      some (s.setPhase th
        (.sampling started todo (readings ++ [(key, state, ⟨readStat key.1 stat, s.usage.book.interval⟩)])), .running)
    | _ => none
  | .report th now =>
    match s.phase th with
    | .sampling started [] readings =>
      match s.usage.report cap now readings with
      | none => some (s.setPhase th .idle, .raised)
      | some (usage, classes) =>
        some (({ s with usage := usage } : Calls V).setPhase th .idle,
          .reported (now - s.usage.lastSample) (now - started) classes)
    | _ => none

def Start (s : Calls V) : Prop := ∃ now, s = ⟨{ lastSample := now }, fun _ => .idle⟩

def system (cap : Capacity) : System (Calls V) (Act V × Event) := .ofNext Start (next cap)

end Calls

end ClawBox.Qos
