import ClawBox.Lib.PyDict
import ClawBox.Lib.Transition
import ClawBox.Collector.Sampling
import Mathlib.Data.Fintype.Defs

namespace ClawBox.Collector

open Fields Transition

inductive Phase where
  | idle
  | baselined
  | registered
  | begun
  | marked
  | ended
  | left
  | finished
  deriving DecidableEq

def Phase.isRegistered : Phase → Bool
  | .registered | .begun | .marked | .ended => true
  | .idle | .baselined | .left | .finished => false

structure Call where
  phase : Phase := .idle
  collector : ResourceCollector := {}
  started : ℤ := 0
  tsEnd : ℤ := 0
  overlapped : Bool := false

variable {ι κ : Type*} [DecidableEq ι] [DecidableEq κ]

structure Bridge (ι κ : Type*) where
  now : ℤ
  active : PyDict κ Bool
  calls : ι → Call

def registerEnvironmentCall (active : PyDict κ Bool) (execID : κ) : PyDict κ Bool :=
  let overlap := decide (active.entries ≠ [])
  (if overlap then active.mapValues (fun _ _ => true) else active).set execID overlap

def finishEnvironmentCall (active : PyDict κ Bool) (execID : κ) : Bool × PyDict κ Bool :=
  ((active.get? execID).getD false, active.pop execID)

inductive Action (ι : Type*) where
  | tick (d : ℕ)
  | baseline (i : ι) (intervalMS : ℤ) (cgroupPath : Text) (setupError : String) (pids : List ProcFiles)
    (meminfo : Option Text)
  | register (i : ι)
  | sample (i : ι) (pids : List ProcFiles) (meminfo : Option Text)
  | begin (i : ι)
  | mark (i : ι)
  | stop (i : ι)
  | leave (i : ι)
  | decide (i : ι)

def Bridge.put (s : Bridge ι κ) (i : ι) (c : Call) : Bridge ι κ := { s with calls := Function.update s.calls i c }

def next (execID : ι → κ) (s : Bridge ι κ) : Action ι → Option (Bridge ι κ × Option MemoryLabel)
  | .tick d => some ({ s with now := s.now + d }, none)
  | .baseline i intervalMS path setupError pids meminfo =>
    if (s.calls i).phase = .idle then
      some (s.put i { s.calls i with
        phase := .baselined
        collector := (startResourceCollectorPrepared intervalMS path setupError).scanProcessTree pids s.now meminfo },
          none)
    else none
  | .register i =>
    if (s.calls i).phase = .baselined then
      some ({ s.put i { s.calls i with phase := .registered } with
        active := registerEnvironmentCall s.active (execID i) }, none)
    else none
  | .sample i pids meminfo =>
    if (s.calls i).phase ≠ .idle ∧ (s.calls i).phase ≠ .baselined then
      some (s.put i { s.calls i with collector := (s.calls i).collector.scanProcessTree pids s.now meminfo }, none)
    else none
  | .begin i =>
    if (s.calls i).phase = .registered then
      some (s.put i { s.calls i with phase := .begun, started := s.now }, none)
    else none
  | .mark i =>
    if (s.calls i).phase = .begun then
      some (s.put i { s.calls i with
        phase := .marked
        collector := (s.calls i).collector.markExecutionStart (s.calls i).started }, none)
    else none
  | .stop i =>
    if (s.calls i).phase = .marked then
      some (s.put i { s.calls i with phase := .ended, tsEnd := s.now }, none)
    else none
  | .leave i =>
    if (s.calls i).phase = .ended then
      some ({ s.put i { s.calls i with
          phase := .left
          overlapped := (finishEnvironmentCall s.active (execID i)).1 } with
        active := (finishEnvironmentCall s.active (execID i)).2 }, none)
    else none
  | .decide i =>
    if (s.calls i).phase = .left then
      some (s.put i { s.calls i with phase := .finished },
        some ((s.calls i).collector.memoryLabel (s.calls i).overlapped (s.calls i).tsEnd))
    else none

def Start (s : Bridge ι κ) : Prop := s.active = ∅ ∧ ∀ i, s.calls i = {}

def bridge (execID : ι → κ) : System (Bridge ι κ) (Action ι × Option MemoryLabel) := System.ofNext Start (next execID)

def Bridge.Registered (s : Bridge ι κ) (i : ι) : Prop := (s.calls i).phase.isRegistered = true

instance (s : Bridge ι κ) (i : ι) : Decidable (s.Registered i) :=
  inferInstanceAs (Decidable ((s.calls i).phase.isRegistered = true))

/-- Nobody leaves while another execution stands between its baseline scan and its registration, and nobody registers
under an id that is registered. -/
def Orderly (execID : ι → κ) (s : Bridge ι κ) : Action ι → Prop
  | .leave _ => ∀ j, (s.calls j).phase ≠ .baselined
  | .register i => s.active.get? (execID i) = none
  | _ => True

instance [Fintype ι] (execID : ι → κ) (s : Bridge ι κ) (a : Action ι) : Decidable (Orderly execID s a) :=
  match a with
  | .leave _ => inferInstanceAs (Decidable (∀ j, (s.calls j).phase ≠ .baselined))
  | .register i => inferInstanceAs (Decidable (s.active.get? (execID i) = none))
  | .tick _ | .baseline .. | .sample .. | .begin _ | .mark _ | .stop _ | .decide _ => .isTrue trivial

end ClawBox.Collector
