import ClawBox.Control.Settlement
import ClawBox.Lib.Raising
import Mathlib.Data.Rat.Defs
import Mathlib.Algebra.Order.Ring.Rat

namespace ClawBox.Control

open Raising

inductive Stamp
  | missing
  | nonFinite
  | at (t : ℚ)
  deriving DecidableEq

/-- What `int(request.get("exit_code", 1))` makes of the field. -/
inductive ExitCode
  | int (n : ℤ)
  | malformed
  deriving DecidableEq

structure Route where
  sandboxId : Value
  epoch : Value
  host : Value
  port : Value
  deriving DecidableEq

structure CompletionRequest where
  request : Request
  -- `str(request["execution_id"])`: the numbers 1 and 1.0 and `true` are one key of the session and three names here
  executionName : String
  named : ∀ s, request.executionId = .text s → executionName = s
  executionStartedAt : Stamp
  sshReapedAt : Stamp
  executionCompletedAt : Stamp
  endpoint : Route
  exitCode : ExitCode

inductive Resource
  | memory
  | cpu
  | permit
  deriving DecidableEq

/-- The books of one session in the worker, under the names of its executions, and what the coordinator, the CPU
domain and the install gate hold for them. -/
structure Desk where
  activeReservations : PyDict String (ℤ × ℤ) := ∅
  admittedRoutes : PyDict String Route := ∅
  hostRssSamplers : PySet String := ∅
  activeCpuPlacements : PySet String := ∅
  memory : PyDict String (ℤ × ℤ) := ∅
  cpus : PySet String := ∅
  permits : PySet String := ∅
  released : List (Resource × String) := []

structure Setup where
  dependencyInstallGate : Bool
  progressControl : Bool

/-- The steps of one run of the callback that raise. -/
structure Raises where
  samplerStop : Bool := false
  lifecycleComplete : Bool := false
  predictionUpdate : Bool := false
  admissionRelease : Bool := false
  cpuRelease : Bool := false
  -- the domain gives the CPUs back before it writes its event, the gate the permit before its own
  cpuEvent : Bool := false
  pressureComplete : Bool := false
  recordTimeSpan : Bool := false
  permitEvent : Bool := false
  idleUpdate : Bool := false
  finalEvents : Bool := false

abbrev DeskStep := Raising Desk Fault

def failing (raises : Bool) (message : String) : DeskStep Unit :=
  if raises then raise ⟨"RuntimeError", message⟩ else pure ()

def stamp (name : String) : Stamp → DeskStep ℚ
  | .missing => raise ⟨"RuntimeError", "completion is missing numeric " ++ name⟩
  | .nonFinite => raise ⟨"RuntimeError", "completion has non-finite " ++ name⟩
  | .at t => pure t

def exitStatus : ExitCode → DeskStep ℤ
  | .int n => pure n
  | .malformed => raise ⟨"ValueError", "invalid literal for int()"⟩

def Desk.popMaps (e : String) (d : Desk) : Desk :=
  { d with
    activeReservations := d.activeReservations.pop e
    admittedRoutes := d.admittedRoutes.pop e
    hostRssSamplers := d.hostRssSamplers.discard e }

def Desk.releaseMemory (e : String) (d : Desk) : Desk :=
  { d with memory := d.memory.pop e, released := (.memory, e) :: d.released }

def Desk.releaseCpu (e : String) (d : Desk) : Desk :=
  { d with cpus := d.cpus.discard e, released := (.cpu, e) :: d.released }

def Desk.removePlacement (e : String) (d : Desk) : Desk :=
  { d with activeCpuPlacements := d.activeCpuPlacements.discard e }

def Desk.releasePermit (e : String) (d : Desk) : Desk :=
  { d with permits := d.permits.discard e, released := (.permit, e) :: d.released }

def admissionRelease (e : String) (raises : Bool) : DeskStep Unit := do
  failing raises "admission.release"
  modify (Desk.releaseMemory e)

def cpuRelease (e : String) (f : Raises) : DeskStep Unit := do
  let d ← get
  if (d.activeCpuPlacements.get? e).isSome then do
    failing f.cpuRelease "cpu.release"
    modify (Desk.releaseCpu e)
    failing f.cpuEvent "tool_call_cpu_placement"
    modify (Desk.removePlacement e)
  else pure ()

def permitRelease (c : Setup) (e : String) (raises : Bool) : DeskStep Unit := do
  let d ← get
  if c.dependencyInstallGate ∧ (d.permits.get? e).isSome then do
    modify (Desk.releasePermit e)
    failing raises "dependency_install_gate_released"
  else pure ()

def settleTool (c : Setup) (x : CompletionRequest) (f : Raises) : DeskStep Fields := do
  modify (Desk.popMaps x.executionName)
  failing f.samplerStop "sampler.stop"
  let _ ← exitStatus x.exitCode
  failing f.lifecycleComplete "lifecycle.complete"
  failing f.predictionUpdate "prediction.update"
  admissionRelease x.executionName f.admissionRelease
  cpuRelease x.executionName f
  failing (c.progressControl && f.pressureComplete) "pressure.complete"
  failing f.recordTimeSpan "tool.operation"
  permitRelease c x.executionName f.permitEvent
  failing f.idleUpdate "lifecycle_idle"
  failing f.finalEvents "tool_completed"
  pure ((∅ : Fields).set "status" (.text "COMPLETED"))

def findAdmission (x : CompletionRequest) (d : Desk) : Except Fault Unit :=
  match d.activeReservations.get? x.executionName, d.admittedRoutes.get? x.executionName,
    d.hostRssSamplers.get? x.executionName with
  | some _, some route, some _ =>
    if x.endpoint ≠ route then .error ⟨"RuntimeError", "completion endpoint does not match its admission"⟩
    else .ok ()
  | _, _, _ => .error ⟨"RuntimeError", "completion has no active admission"⟩

def completeOpenclawTool (c : Setup) (x : CompletionRequest) (f : Raises) : DeskStep Fields := do
  let started ← stamp "execution_started_at" x.executionStartedAt
  let reaped ← stamp "ssh_reaped_at" x.sshReapedAt
  let completed ← stamp "execution_completed_at" x.executionCompletedAt
  if ¬(started ≤ reaped ∧ reaped ≤ completed) then
    raise ⟨"RuntimeError", "completion timestamps do not prove SSH reaped before complete"⟩
  else do
    let d ← get
    match findAdmission x d with
    | .error e => raise e
    | .ok () => settleTool c x f

def completionRequest (c : Setup) (s : Session × Desk) (x : CompletionRequest) (f : Raises) :
    (Session × Desk) × Phase :=
  match s.1.completion x.request with
  | (session, .complete r request) =>
    let (outcome, desk) := (completeOpenclawTool c x f).run s.2
    let (session, phase) := session.completed r request outcome
    ((session, desk), phase)
  | (session, phase) => ((session, s.2), phase)

def completionRequests (c : Setup) (s : Session × Desk) (l : List (CompletionRequest × Raises)) : Session × Desk :=
  l.foldl (fun s a => (completionRequest c s a.1 a.2).1) s

structure Grip where
  amounts : ℤ × ℤ
  route : Route
  placed : Bool
  permitted : Bool

structure Held (g : Grip) (e : String) (d : Desk) : Prop where
  reservation : d.activeReservations.get? e = some g.amounts
  route : d.admittedRoutes.get? e = some g.route
  sampler : (d.hostRssSamplers.get? e).isSome
  memory : d.memory.get? e = some g.amounts
  placement : (d.activeCpuPlacements.get? e).isSome = g.placed
  cpu : (d.cpus.get? e).isSome = g.placed
  permit : (d.permits.get? e).isSome = g.permitted
  untouched : ∀ k, d.released.count (k, e) = 0

structure Released (g : Grip) (e : String) (d : Desk) : Prop where
  reservation : d.activeReservations.get? e = none
  route : d.admittedRoutes.get? e = none
  sampler : d.hostRssSamplers.get? e = none
  memory : d.memory.get? e = none
  placement : d.activeCpuPlacements.get? e = none
  cpu : d.cpus.get? e = none
  permit : d.permits.get? e = none
  memoryOnce : d.released.count (.memory, e) = 1
  cpuOnce : d.released.count (.cpu, e) = if g.placed then 1 else 0
  permitOnce : d.released.count (.permit, e) = if g.permitted then 1 else 0

section Settle

variable {c : Setup} {g : Grip} {e : String} {d : Desk} {x : CompletionRequest} {f : Raises}

theorem failing_run (b : Bool) (m : String) (d : Desk) :
    (failing b m).run d = (if b then .error ⟨"RuntimeError", m⟩ else .ok (), d) := by
  cases b <;> rfl

def stumbles (x : CompletionRequest) (f : Raises) : Bool :=
  f.samplerStop || decide (x.exitCode = .malformed) || f.lifecycleComplete || f.predictionUpdate || f.admissionRelease

def afterMemory (e : String) (d : Desk) : Desk := (d.popMaps e).releaseMemory e

def afterCpu (g : Grip) (e : String) (d : Desk) : Desk :=
  if g.placed then ((afterMemory e d).releaseCpu e).removePlacement e else afterMemory e d

def afterPermit (g : Grip) (e : String) (d : Desk) : Desk :=
  if g.permitted then (afterCpu g e d).releasePermit e else afterCpu g e d

def blocked (c : Setup) (f : Raises) : Bool := (c.progressControl && f.pressureComplete) || f.recordTimeSpan

def settleRest (c : Setup) (e : String) (f : Raises) : DeskStep Fields := do
  cpuRelease e f
  failing (c.progressControl && f.pressureComplete) "pressure.complete"
  failing f.recordTimeSpan "tool.operation"
  permitRelease c e f.permitEvent
  failing f.idleUpdate "lifecycle_idle"
  failing f.finalEvents "tool_completed"
  pure ((∅ : Fields).set "status" (.text "COMPLETED"))

theorem settleTool_stumbles (h : stumbles x f = true) :
    ∃ fault, (settleTool c x f).run d = (.error fault, d.popMaps x.executionName) := by
  unfold settleTool
  rw [run_modify_bind]
  by_cases h1 : f.samplerStop = true
  · exact ⟨_, run_bind_error (by rw [failing_run, if_pos h1]) _⟩
  rw [run_bind_ok (by rw [failing_run, if_neg h1])]
  by_cases h2 : x.exitCode = .malformed
  · rw [h2]
    exact ⟨_, rfl⟩
  obtain ⟨n, hn⟩ : ∃ n, x.exitCode = .int n := by
    cases hx : x.exitCode with
    | int n => exact ⟨n, rfl⟩
    | malformed => exact absurd hx h2
  have hexit : (exitStatus x.exitCode).run (d.popMaps x.executionName) =
      (.ok n, d.popMaps x.executionName) := by
    rw [hn]
    rfl
  rw [run_bind_ok hexit]
  by_cases h3 : f.lifecycleComplete = true
  · exact ⟨_, run_bind_error (by rw [failing_run, if_pos h3]) _⟩
  rw [run_bind_ok (by rw [failing_run, if_neg h3])]
  by_cases h4 : f.predictionUpdate = true
  · exact ⟨_, run_bind_error (by rw [failing_run, if_pos h4]) _⟩
  rw [run_bind_ok (by rw [failing_run, if_neg h4])]
  have h5 : f.admissionRelease = true := by simpa [stumbles, h1, h2, h3, h4] using h
  refine ⟨_, run_bind_error (e := ⟨"RuntimeError", "admission.release"⟩) ?_ _⟩
  exact run_bind_error (by rw [failing_run, if_pos h5]) _

theorem settleTool_rest (h : stumbles x f = false) :
    (settleTool c x f).run d =
      (settleRest c x.executionName f).run (afterMemory x.executionName d) := by
  simp only [stumbles, Bool.or_eq_false_iff, decide_eq_false_iff_not] at h
  obtain ⟨⟨⟨⟨h1, h2⟩, h3⟩, h4⟩, h5⟩ := h
  obtain ⟨n, hn⟩ : ∃ n, x.exitCode = .int n := by
    cases hx : x.exitCode with
    | int n => exact ⟨n, rfl⟩
    | malformed => exact absurd hx h2
  unfold settleTool
  rw [run_modify_bind, h1, hn, h3, h4, h5]
  rfl

def cpuStumbles (g : Grip) (f : Raises) : Bool := g.placed && (f.cpuRelease || f.cpuEvent)

def cpuStop (f : Raises) (e : String) (d : Desk) : Desk :=
  if f.cpuRelease then afterMemory e d else (afterMemory e d).releaseCpu e

theorem cpuRelease_run (hp : ((afterMemory e d).activeCpuPlacements.get? e).isSome = g.placed) :
    (cpuStumbles g f = true → ∃ fault, (cpuRelease e f).run (afterMemory e d) = (.error fault, cpuStop f e d)) ∧
      (cpuStumbles g f = false → (cpuRelease e f).run (afterMemory e d) = (.ok (), afterCpu g e d)) := by
  unfold cpuRelease afterCpu cpuStumbles cpuStop
  rw [run_get_bind, hp, run_ite]
  cases hg : g.placed with
  | false => simp
  | true =>
    cases hr : f.cpuRelease with
    | true => exact ⟨fun _ => ⟨_, rfl⟩, by simp⟩
    | false =>
      cases hevent : f.cpuEvent with
      | true => exact ⟨fun _ => ⟨_, rfl⟩, by simp⟩
      | false => exact ⟨by simp, fun _ => rfl⟩

theorem permitRelease_run (hp : ((afterCpu g e d).permits.get? e).isSome = g.permitted)
    (hgate : g.permitted → c.dependencyInstallGate) (b : Bool) :
    (g.permitted = true ∧ b = true →
        ∃ fault, (permitRelease c e b).run (afterCpu g e d) = (.error fault, afterPermit g e d)) ∧
      (¬(g.permitted = true ∧ b = true) →
        (permitRelease c e b).run (afterCpu g e d) = (.ok (), afterPermit g e d)) := by
  unfold permitRelease afterPermit
  rw [run_get_bind, hp, run_ite]
  cases hg : g.permitted with
  | false => simp
  | true =>
    have hgate' := hgate hg
    cases b with
    | true => exact ⟨fun _ => by rw [if_pos ⟨hgate', rfl⟩]; exact ⟨_, rfl⟩, by simp⟩
    | false => exact ⟨by simp, fun _ => by rw [if_pos ⟨hgate', rfl⟩]; rfl⟩

theorem settleRest_run (hcpu : ((afterMemory e d).activeCpuPlacements.get? e).isSome = g.placed)
    (hpermit : ((afterCpu g e d).permits.get? e).isSome = g.permitted)
    (hgate : g.permitted → c.dependencyInstallGate) :
    (cpuStumbles g f = true →
        ∃ fault, (settleRest c e f).run (afterMemory e d) = (.error fault, cpuStop f e d)) ∧
      (cpuStumbles g f = false → blocked c f = true →
        ∃ fault, (settleRest c e f).run (afterMemory e d) = (.error fault, afterCpu g e d)) ∧
      (cpuStumbles g f = false → blocked c f = false →
        ((settleRest c e f).run (afterMemory e d)).2 = afterPermit g e d) := by
  have hrelease := cpuRelease_run (f := f) hcpu
  refine ⟨fun h => ?_, fun h hb => ?_, fun h hb => ?_⟩
  · obtain ⟨fault, hf⟩ := hrelease.1 h
    exact ⟨fault, run_bind_error hf _⟩
  · unfold settleRest
    rw [run_bind_ok (hrelease.2 h)]
    by_cases h1 : (c.progressControl && f.pressureComplete) = true
    · exact ⟨_, run_bind_error (by rw [failing_run, if_pos h1]) _⟩
    rw [run_bind_ok (by rw [failing_run, if_neg h1])]
    have h2 : f.recordTimeSpan = true := by simpa [blocked, h1] using hb
    exact ⟨_, run_bind_error (by rw [failing_run, if_pos h2]) _⟩
  · unfold settleRest
    obtain ⟨h1, h2⟩ := Bool.or_eq_false_iff.1 hb
    rw [run_bind_ok (hrelease.2 h), h1, h2, run_bind_ok (failing_run false _ _), run_bind_ok (failing_run false _ _)]
    have hgiven := permitRelease_run hpermit hgate f.permitEvent
    by_cases h3 : g.permitted = true ∧ f.permitEvent = true
    · obtain ⟨fault, hf⟩ := hgiven.1 h3
      rw [run_bind_error hf]
    rw [run_bind_ok (hgiven.2 h3)]
    cases f.idleUpdate <;> cases f.finalEvents <;> rfl

theorem Held.popMaps_neither (h : Held g e d) : ¬(Held g e (d.popMaps e) ∨ Released g e (d.popMaps e)) := by
  rintro (h' | h')
  · have := h'.reservation
    simp [Desk.popMaps] at this
  · have hm : d.memory.get? e = none := h'.memory
    rw [h.memory] at hm
    cases hm

theorem Held.afterMemory_cpu (h : Held g e d) : ((afterMemory e d).activeCpuPlacements.get? e).isSome = g.placed :=
  h.placement

theorem Held.afterCpu_permit (h : Held g e d) : ((afterCpu g e d).permits.get? e).isSome = g.permitted := by
  rw [← h.permit]
  unfold afterCpu
  split_ifs <;> rfl

theorem Held.cpuStop_neither (h : Held g e d) (hp : g.placed = true) :
    ¬(Held g e (cpuStop f e d) ∨ Released g e (cpuStop f e d)) := by
  have hreservation : (cpuStop f e d).activeReservations.get? e = none := by
    unfold cpuStop
    split_ifs <;> exact PyDict.get?_pop_self _ _
  have hplacement : (cpuStop f e d).activeCpuPlacements = d.activeCpuPlacements := by
    unfold cpuStop
    split_ifs <;> rfl
  rintro (h' | h')
  · have := h'.reservation
    rw [hreservation] at this
    cases this
  · have hnone := h'.placement
    have hs := h.placement
    rw [← hplacement, hnone, hp] at hs
    cases hs

theorem afterCpu_reservation : (afterCpu g e d).activeReservations.get? e = none := by
  unfold afterCpu
  split_ifs <;> exact PyDict.get?_pop_self _ _

theorem Held.afterCpu_neither (h : Held g e d) (hp : g.permitted = true) :
    ¬(Held g e (afterCpu g e d) ∨ Released g e (afterCpu g e d)) := by
  rintro (h' | h')
  · have hr := h'.reservation
    rw [afterCpu_reservation] at hr
    cases hr
  · have hs := h.afterCpu_permit
    rw [h'.permit, hp] at hs
    cases hs

theorem Held.none_of_not_placed (h : Held g e d) (hp : g.placed = false) :
    d.activeCpuPlacements.get? e = none ∧ d.cpus.get? e = none := by
  have h1 := h.placement
  have h2 := h.cpu
  rw [hp] at h1 h2
  exact ⟨by simpa using h1, by simpa using h2⟩

structure Unbound (g : Grip) (e : String) (d : Desk) : Prop where
  reservation : d.activeReservations.get? e = none
  route : d.admittedRoutes.get? e = none
  sampler : d.hostRssSamplers.get? e = none
  memory : d.memory.get? e = none
  placement : d.activeCpuPlacements.get? e = none
  cpu : d.cpus.get? e = none
  memoryOnce : d.released.count (.memory, e) = 1
  cpuOnce : d.released.count (.cpu, e) = if g.placed then 1 else 0
  permitKept : d.released.count (.permit, e) = 0

theorem Held.afterCpu_unbound (h : Held g e d) : Unbound g e (afterCpu g e d) := by
  have hm := h.untouched .memory
  have hc := h.untouched .cpu
  have hr := h.untouched .permit
  cases hplaced : g.placed with
  | true =>
    have heq : afterCpu g e d = ((afterMemory e d).releaseCpu e).removePlacement e := if_pos hplaced
    rw [heq]
    constructor <;>
      simp [afterMemory, Desk.popMaps, Desk.releaseMemory, Desk.releaseCpu, Desk.removePlacement, PySet.discard,
        hplaced, hm, hc, hr]
  | false =>
    obtain ⟨h1, h2⟩ := h.none_of_not_placed hplaced
    have heq : afterCpu g e d = afterMemory e d := if_neg (by simp [hplaced])
    rw [heq]
    constructor <;>
      simp [afterMemory, Desk.popMaps, Desk.releaseMemory, PySet.discard, hplaced, hm, hc, hr, h1, h2]

theorem Held.afterCpu_released (h : Held g e d) (hp : g.permitted = false) : Released g e (afterCpu g e d) := by
  have hu := h.afterCpu_unbound
  have hpermit := h.afterCpu_permit
  rw [hp] at hpermit
  exact { hu with permit := by simpa using hpermit, permitOnce := by simp [hp, hu.permitKept] }

theorem Held.afterPermit_released (h : Held g e d) : Released g e (afterPermit g e d) := by
  cases hp : g.permitted with
  | false =>
    have heq : afterPermit g e d = afterCpu g e d := if_neg (by simp [hp])
    rw [heq]
    exact h.afterCpu_released hp
  | true =>
    have heq : afterPermit g e d = (afterCpu g e d).releasePermit e := if_pos hp
    have hu := h.afterCpu_unbound
    rw [heq]
    exact {
      reservation := hu.reservation, route := hu.route, sampler := hu.sampler, memory := hu.memory
      placement := hu.placement, cpu := hu.cpu
      permit := by simp [Desk.releasePermit, PySet.discard]
      memoryOnce := by simpa [Desk.releasePermit] using hu.memoryOnce
      cpuOnce := by simpa [Desk.releasePermit] using hu.cpuOnce
      permitOnce := by simp [Desk.releasePermit, hp, hu.permitKept] }

def passesChecks (g : Grip) (x : CompletionRequest) : Bool :=
  match x.executionStartedAt, x.sshReapedAt, x.executionCompletedAt with
  | .at started, .at reaped, .at completed => decide (started ≤ reaped) && decide (reaped ≤ completed) &&
    decide (x.endpoint = g.route)
  | _, _, _ => false

/-- No step raises with some of the things given back and others not. -/
def wholeOrNothing (c : Setup) (g : Grip) (x : CompletionRequest) (f : Raises) : Bool :=
  !passesChecks g x ||
    (!stumbles x f && !cpuStumbles g f && (!g.permitted || !blocked c f))

theorem findAdmission_held (h : Held g e d) (hx : x.executionName = e) :
    findAdmission x d = if x.endpoint = g.route then .ok ()
      else .error ⟨"RuntimeError", "completion endpoint does not match its admission"⟩ := by
  unfold findAdmission
  obtain ⟨u, hu⟩ := Option.isSome_iff_exists.1 h.sampler
  rw [hx, h.reservation, h.route, hu]
  by_cases hr : x.endpoint = g.route <;> simp [hr]

theorem complete_unchecked (h : Held g e d) (hx : x.executionName = e) (hp : passesChecks g x = false) :
    ∃ fault, (completeOpenclawTool c x f).run d = (.error fault, d) := by
  unfold completeOpenclawTool
  cases h1 : x.executionStartedAt with
  | missing => exact ⟨_, rfl⟩
  | nonFinite => exact ⟨_, rfl⟩
  | «at» started =>
    cases h2 : x.sshReapedAt with
    | missing => exact ⟨_, rfl⟩
    | nonFinite => exact ⟨_, rfl⟩
    | «at» reaped =>
      cases h3 : x.executionCompletedAt with
      | missing => exact ⟨_, rfl⟩
      | nonFinite => exact ⟨_, rfl⟩
      | «at» completed =>
        simp only [stamp, run_pure_bind, run_ite]
        by_cases horder : started ≤ reaped ∧ reaped ≤ completed
        · rw [if_neg (not_not.2 horder), run_get_bind, findAdmission_held h hx]
          have hr : ¬x.endpoint = g.route := by
            intro hr
            simp [passesChecks, h1, h2, h3, horder.1, horder.2, hr] at hp
          rw [if_neg hr]
          exact ⟨_, rfl⟩
        · rw [if_pos horder]
          exact ⟨_, rfl⟩

theorem complete_checked (h : Held g e d) (hx : x.executionName = e) (hp : passesChecks g x = true) :
    (completeOpenclawTool c x f).run d = (settleTool c x f).run d := by
  unfold completeOpenclawTool
  cases h1 : x.executionStartedAt with
  | missing => simp [passesChecks, h1] at hp
  | nonFinite => simp [passesChecks, h1] at hp
  | «at» started =>
    cases h2 : x.sshReapedAt with
    | missing => simp [passesChecks, h1, h2] at hp
    | nonFinite => simp [passesChecks, h1, h2] at hp
    | «at» reaped =>
      cases h3 : x.executionCompletedAt with
      | missing => simp [passesChecks, h1, h2, h3] at hp
      | nonFinite => simp [passesChecks, h1, h2, h3] at hp
      | «at» completed =>
        simp only [passesChecks, h1, h2, h3, Bool.and_eq_true, decide_eq_true_eq] at hp
        simp only [stamp, run_pure_bind, run_ite]
        rw [if_neg (not_not.2 hp.1), run_get_bind, findAdmission_held h hx, if_pos hp.2]

theorem complete_iff (h : Held g e d) (hx : x.executionName = e) (hgate : g.permitted → c.dependencyInstallGate) :
    (Held g e ((completeOpenclawTool c x f).run d).2 ∨ Released g e ((completeOpenclawTool c x f).run d).2) ↔
      wholeOrNothing c g x f = true := by
  cases hp : passesChecks g x with
  | false =>
    obtain ⟨fault, hrun⟩ := complete_unchecked (c := c) (f := f) h hx hp
    simp [hrun, h, wholeOrNothing, hp]
  | true =>
    rw [complete_checked h hx hp]
    cases hs : stumbles x f with
    | true =>
      obtain ⟨fault, hrun⟩ := settleTool_stumbles (c := c) (d := d) hs
      rw [hrun, hx]
      have := h.popMaps_neither
      simp [wholeOrNothing, hp, hs, this]
    | false =>
      rw [settleTool_rest hs, hx]
      obtain ⟨hcpu, hblocked, hfree⟩ :=
        settleRest_run (c := c) (f := f) h.afterMemory_cpu h.afterCpu_permit hgate
      cases hc : cpuStumbles g f with
      | true =>
        obtain ⟨fault, hrun⟩ := hcpu hc
        rw [hrun]
        have hplaced : g.placed = true := (Bool.and_eq_true_iff.1 hc).1
        have := h.cpuStop_neither (f := f) hplaced
        simp [wholeOrNothing, hp, hs, hc, this]
      | false =>
        cases hb : blocked c f with
        | true =>
          obtain ⟨fault, hrun⟩ := hblocked hc hb
          rw [hrun]
          cases hpermit : g.permitted with
          | true =>
            have := h.afterCpu_neither hpermit
            simp [wholeOrNothing, hp, hs, hc, hb, hpermit, this]
          | false =>
            have := h.afterCpu_released hpermit
            simp [wholeOrNothing, hp, hs, hc, hpermit, this]
        | false =>
          rw [hfree hc hb]
          have := h.afterPermit_released
          simp [wholeOrNothing, hp, hs, hc, hb, this]

theorem complete_returned (h : Held g e d) (hx : x.executionName = e)
    (hgate : g.permitted → c.dependencyInstallGate) {response : Fields}
    (hr : ((completeOpenclawTool c x f).run d).1 = .ok response) :
    Released g e ((completeOpenclawTool c x f).run d).2 := by
  cases hp : passesChecks g x with
  | false =>
    obtain ⟨fault, hrun⟩ := complete_unchecked (c := c) (f := f) h hx hp
    rw [hrun] at hr
    cases hr
  | true =>
    rw [complete_checked h hx hp] at hr ⊢
    cases hs : stumbles x f with
    | true =>
      obtain ⟨fault, hrun⟩ := settleTool_stumbles (c := c) (d := d) hs
      rw [hrun] at hr
      cases hr
    | false =>
      rw [settleTool_rest hs, hx] at hr ⊢
      obtain ⟨hcpu, hblocked, hfree⟩ :=
        settleRest_run (c := c) (f := f) h.afterMemory_cpu h.afterCpu_permit hgate
      cases hc : cpuStumbles g f with
      | true =>
        obtain ⟨fault, hrun⟩ := hcpu hc
        rw [hrun] at hr
        cases hr
      | false =>
        cases hb : blocked c f with
        | true =>
          obtain ⟨fault, hrun⟩ := hblocked hc hb
          rw [hrun] at hr
          cases hr
        | false =>
          rw [hfree hc hb]
          exact h.afterPermit_released

/-- A completion request as its client should send it. -/
def wellFormed (g : Grip) (x : CompletionRequest) : Bool := passesChecks g x && decide (x.exitCode ≠ .malformed)

theorem complete_wellFormed (h : Held g e d) (hx : x.executionName = e) (hw : wellFormed g x = true)
    (hgate : g.permitted → c.dependencyInstallGate) :
    ((completeOpenclawTool c x {}).run d).1 = .ok ((∅ : Fields).set "status" (.text "COMPLETED")) := by
  obtain ⟨hp, hexit⟩ := Bool.and_eq_true_iff.1 hw
  have hs : stumbles x {} = false := by simpa [stumbles] using hexit
  rw [complete_checked h hx hp, settleTool_rest hs, hx]
  unfold settleRest
  have hcpu := (cpuRelease_run (f := {}) h.afterMemory_cpu).2 (by simp [cpuStumbles])
  have hpermit := (permitRelease_run (c := c) h.afterCpu_permit hgate false).2 (by simp)
  rw [run_bind_ok hcpu, Bool.and_false, run_bind_ok (failing_run false _ _), run_bind_ok (failing_run false _ _),
    run_bind_ok hpermit]
  rfl

theorem complete_again (h : Released g e d) (hx : x.executionName = e) :
    ∃ fault, (completeOpenclawTool c x f).run d = (.error fault, d) := by
  have hfind : findAdmission x d = .error ⟨"RuntimeError", "completion has no active admission"⟩ := by
    unfold findAdmission
    rw [hx, h.reservation]
  unfold completeOpenclawTool
  cases x.executionStartedAt with
  | missing => exact ⟨_, rfl⟩
  | nonFinite => exact ⟨_, rfl⟩
  | «at» started =>
    cases x.sshReapedAt with
    | missing => exact ⟨_, rfl⟩
    | nonFinite => exact ⟨_, rfl⟩
    | «at» reaped =>
      cases x.executionCompletedAt with
      | missing => exact ⟨_, rfl⟩
      | nonFinite => exact ⟨_, rfl⟩
      | «at» completed =>
        simp only [stamp, run_pure_bind, run_ite, run_get_bind, hfind]
        split_ifs
        · exact ⟨_, rfl⟩
        · exact ⟨_, rfl⟩

end Settle

section Others

variable {g : Grip} {e : String} {d d' : Desk} {x : CompletionRequest}

structure Entry where
  reservation : Option (ℤ × ℤ)
  route : Option Route
  sampler : Option Unit
  placement : Option Unit
  memory : Option (ℤ × ℤ)
  cpu : Option Unit
  permit : Option Unit
  released : Resource → ℕ

def Desk.entry (e : String) (d : Desk) : Entry where
  reservation := d.activeReservations.get? e
  route := d.admittedRoutes.get? e
  sampler := d.hostRssSamplers.get? e
  placement := d.activeCpuPlacements.get? e
  memory := d.memory.get? e
  cpu := d.cpus.get? e
  permit := d.permits.get? e
  released k := d.released.count (k, e)

theorem Held.of_entry (h : Held g e d) (heq : d'.entry e = d.entry e) : Held g e d' where
  reservation := (congrArg Entry.reservation heq).trans h.reservation
  route := (congrArg Entry.route heq).trans h.route
  sampler := (congrArg (fun r => r.sampler.isSome) heq).trans h.sampler
  memory := (congrArg Entry.memory heq).trans h.memory
  placement := (congrArg (fun r => r.placement.isSome) heq).trans h.placement
  cpu := (congrArg (fun r => r.cpu.isSome) heq).trans h.cpu
  permit := (congrArg (fun r => r.permit.isSome) heq).trans h.permit
  untouched k := (congrArg (fun r => r.released k) heq).trans (h.untouched k)

theorem Released.of_entry (h : Released g e d) (heq : d'.entry e = d.entry e) : Released g e d' where
  reservation := (congrArg Entry.reservation heq).trans h.reservation
  route := (congrArg Entry.route heq).trans h.route
  sampler := (congrArg Entry.sampler heq).trans h.sampler
  memory := (congrArg Entry.memory heq).trans h.memory
  placement := (congrArg Entry.placement heq).trans h.placement
  cpu := (congrArg Entry.cpu heq).trans h.cpu
  permit := (congrArg Entry.permit heq).trans h.permit
  memoryOnce := (congrArg (fun r => r.released .memory) heq).trans h.memoryOnce
  cpuOnce := (congrArg (fun r => r.released .cpu) heq).trans h.cpuOnce
  permitOnce := (congrArg (fun r => r.released .permit) heq).trans h.permitOnce

theorem entry_popMaps {o : String} (h : e ≠ o) (d : Desk) : (d.popMaps o).entry e = d.entry e := by
  simp [Desk.entry, Desk.popMaps, PySet.discard, PyDict.get?_pop_ne _ h]

theorem entry_releaseMemory {o : String} (h : e ≠ o) (d : Desk) : (d.releaseMemory o).entry e = d.entry e := by
  simp [Desk.entry, Desk.releaseMemory, PyDict.get?_pop_ne _ h, h.symm]

theorem entry_releaseCpu {o : String} (h : e ≠ o) (d : Desk) : (d.releaseCpu o).entry e = d.entry e := by
  simp [Desk.entry, Desk.releaseCpu, PySet.discard, PyDict.get?_pop_ne _ h, h.symm]

theorem entry_removePlacement {o : String} (h : e ≠ o) (d : Desk) : (d.removePlacement o).entry e = d.entry e := by
  simp [Desk.entry, Desk.removePlacement, PySet.discard, PyDict.get?_pop_ne _ h]

theorem entry_releasePermit {o : String} (h : e ≠ o) (d : Desk) : (d.releasePermit o).entry e = d.entry e := by
  simp [Desk.entry, Desk.releasePermit, PySet.discard, PyDict.get?_pop_ne _ h, h.symm]

theorem frames_failing (b : Bool) (m : String) : Frames (Desk.entry e) (failing b m) := by
  cases b
  · exact Frames.pure ()
  · exact Frames.raise _

theorem frames_settleTool (c : Setup) (f : Raises) (h : e ≠ x.executionName) :
    Frames (Desk.entry e) (settleTool c x f) := by
  unfold settleTool admissionRelease cpuRelease permitRelease
  refine Frames.modify_bind (entry_popMaps h) ?_
  refine Frames.bind (frames_failing _ _) fun _ => ?_
  refine Frames.bind ?_ fun _ => ?_
  · cases x.exitCode with
    | int n => exact Frames.pure n
    | malformed => exact Frames.raise _
  refine Frames.bind (frames_failing _ _) fun _ => ?_
  refine Frames.bind (frames_failing _ _) fun _ => ?_
  refine Frames.bind (Frames.bind (frames_failing _ _) fun _ => Frames.modify (entry_releaseMemory h)) fun _ => ?_
  refine Frames.bind ?_ fun _ => ?_
  · refine Frames.get_bind fun d => Frames.ite ?_ (Frames.pure ())
    refine Frames.bind (frames_failing _ _) fun _ => Frames.modify_bind (entry_releaseCpu h) ?_
    exact Frames.bind (frames_failing _ _) fun _ => Frames.modify (entry_removePlacement h)
  refine Frames.bind (frames_failing _ _) fun _ => ?_
  refine Frames.bind (frames_failing _ _) fun _ => ?_
  refine Frames.bind ?_ fun _ => ?_
  · refine Frames.get_bind fun d => Frames.ite ?_ (Frames.pure ())
    exact Frames.modify_bind (entry_releasePermit h) (frames_failing _ _)
  refine Frames.bind (frames_failing _ _) fun _ => ?_
  exact Frames.bind (frames_failing _ _) fun _ => Frames.pure _

theorem frames_stamp (name : String) (t : Stamp) : Frames (Desk.entry e) (stamp name t) := by
  cases t with
  | missing => exact Frames.raise _
  | nonFinite => exact Frames.raise _
  | «at» t => exact Frames.pure t

theorem frames_complete (c : Setup) (f : Raises) (h : e ≠ x.executionName) :
    Frames (Desk.entry e) (completeOpenclawTool c x f) := by
  unfold completeOpenclawTool
  refine Frames.bind (frames_stamp _ _) fun started => ?_
  refine Frames.bind (frames_stamp _ _) fun reaped => ?_
  refine Frames.bind (frames_stamp _ _) fun completed => ?_
  refine Frames.ite (Frames.raise _) ?_
  refine Frames.get_bind fun d => ?_
  cases findAdmission x d with
  | error fault => exact Frames.raise fault
  | ok u => exact frames_settleTool c f h

end Others

section Requests

variable {c : Setup} {g : Grip} {e : Value} {n : String} {r : ℕ} {sha : Value} {s : Session × Desk}

structure Admitted (e : Value) (r : ℕ) (sha : Value) (s : Session) : Prop where
  known : s.executions.get? e = some r
  alone : ∀ o, s.executions.get? o = some r → o = e
  admission : (s.objects r).admission.isSome
  command : (s.objects r).commandSha256 = sha
  idle : (s.objects r).completing = false

def Settling (g : Grip) (e : Value) (n : String) (r : ℕ) (sha : Value) (s : Session × Desk) : Prop :=
  Admitted e r sha s.1 ∧ ((Held g n s.2 ∧ (s.1.objects r).completion = none) ∨ Released g n s.2)

theorem Admitted.completion_eq {s : Session} (h : Admitted e r sha s) {request : Request}
    (hx : request.executionId = e) :
    s.completion request =
      if sha ≠ request.commandSha256 then (s, valueError "completion command does not match admission")
      else match (s.objects r).completion with
        | some response => (s, .acknowledged response true)
        | none => (s.change r fun x => { x with completing := true }, .complete r request) := by
  obtain ⟨admission, ha⟩ := Option.isSome_iff_exists.1 h.admission
  unfold Session.completion Session.awaitCompletion
  rw [hx, h.known]
  cases hc : (s.objects r).completion <;> simp [ha, hc, h.command, h.idle]

theorem Admitted.completed {s : Session} (h : Admitted e r sha s) (request : Request) (outcome : Except Fault Fields) :
    Admitted e r sha ((s.change r fun x => { x with completing := true }).completed r request outcome).1 := by
  cases outcome with
  | error fault => exact ⟨h.known, h.alone, by simpa [Session.completed, Session.change] using h.admission,
      by simpa [Session.completed, Session.change] using h.command, by simp [Session.completed, Session.change]⟩
  | ok response => exact ⟨h.known, h.alone, by simpa [Session.completed, Session.change] using h.admission,
      by simpa [Session.completed, Session.change] using h.command, by simp [Session.completed, Session.change]⟩

theorem Admitted.of_agree {s t : Session} (h : Admitted e r sha s) (hx : t.executions = s.executions)
    (ho : t.objects r = s.objects r) : Admitted e r sha t :=
  ⟨hx ▸ h.known, fun o => hx ▸ h.alone o, ho ▸ h.admission, ho ▸ h.command, ho ▸ h.idle⟩

theorem completionRequest_session (h : Admitted e r sha s.1) {x : CompletionRequest} (hx : e ≠ x.request.executionId)
    (f : Raises) :
    (completionRequest c s x f).1.1.executions = s.1.executions ∧
      (completionRequest c s x f).1.1.objects r = s.1.objects r := by
  unfold completionRequest Session.completion
  cases hk : s.1.executions.get? x.request.executionId with
  | none => exact ⟨rfl, rfl⟩
  | some o =>
    have hne : r ≠ o := by
      rintro rfl
      exact hx (h.alone _ hk).symm
    simp only [Session.awaitCompletion]
    split_ifs with h1 h2 h3
    · exact ⟨rfl, rfl⟩
    · exact ⟨rfl, rfl⟩
    · exact ⟨rfl, rfl⟩
    cases (s.1.objects o).completion with
    | some response => exact ⟨rfl, rfl⟩
    | none =>
      rcases hrun : (completeOpenclawTool c x f).run s.2 with ⟨outcome, desk⟩
      cases outcome with
      | error fault => exact ⟨rfl, by simp [Session.completed, Session.change, hne]⟩
      | ok response => exact ⟨rfl, by simp [Session.completed, Session.change, hne]⟩

theorem completionRequest_desk (s : Session × Desk) (x : CompletionRequest) (f : Raises) :
    (completionRequest c s x f).1.2 = s.2 ∨
      (completionRequest c s x f).1.2 = ((completeOpenclawTool c x f).run s.2).2 := by
  unfold completionRequest
  split
  · exact .inr rfl
  · exact .inl rfl

theorem completionRequest_entry {x : CompletionRequest} (hx : n ≠ x.executionName) (f : Raises) :
    (completionRequest c s x f).1.2.entry n = s.2.entry n := by
  rcases completionRequest_desk (c := c) s x f with h | h
  · rw [h]
  · rw [h]
    exact frames_complete c f hx s.2

theorem Settling.other (h : Settling g e n r sha s) {x : CompletionRequest} (hx : e ≠ x.request.executionId)
    (hn : n ≠ x.executionName) (f : Raises) : Settling g e n r sha (completionRequest c s x f).1 := by
  obtain ⟨hexecutions, hobject⟩ := completionRequest_session (c := c) h.1 hx f
  have hentry := completionRequest_entry (c := c) (s := s) hn f
  refine ⟨h.1.of_agree hexecutions hobject, ?_⟩
  rcases h.2 with ⟨hheld, hnone⟩ | hreleased
  · exact .inl ⟨hheld.of_entry hentry, by rw [hobject, hnone]⟩
  · exact .inr (hreleased.of_entry hentry)

theorem Settling.namesake (h : Settling g e n r sha s) (hgate : g.permitted → c.dependencyInstallGate)
    {x : CompletionRequest} (hx : e ≠ x.request.executionId) (hn : x.executionName = n) {f : Raises}
    (hf : wholeOrNothing c g x f = true) : Settling g e n r sha (completionRequest c s x f).1 := by
  obtain ⟨hexecutions, hobject⟩ := completionRequest_session (c := c) h.1 hx f
  refine ⟨h.1.of_agree hexecutions hobject, ?_⟩
  rw [hobject]
  rcases completionRequest_desk (c := c) s x f with hdesk | hdesk
  · rw [hdesk]
    exact h.2
  · rw [hdesk]
    rcases h.2 with ⟨hheld, hnone⟩ | hreleased
    · exact ((complete_iff (c := c) (f := f) hheld hn hgate).2 hf).imp_left fun h' => ⟨h', hnone⟩
    · obtain ⟨fault, hrun⟩ := complete_again (c := c) (f := f) hreleased hn
      rw [hrun]
      exact .inr hreleased

theorem Settling.request (h : Settling g e n r sha s) (hgate : g.permitted → c.dependencyInstallGate)
    {x : CompletionRequest} (hx : x.request.executionId = e) (hn : x.executionName = n) {f : Raises}
    (hf : wholeOrNothing c g x f = true) : Settling g e n r sha (completionRequest c s x f).1 := by
  obtain ⟨hadmitted, hend⟩ := h
  unfold completionRequest
  rw [hadmitted.completion_eq hx]
  split_ifs with hsha
  · exact ⟨hadmitted, hend⟩
  cases hc : (s.1.objects r).completion with
  | some response => exact ⟨hadmitted, hend⟩
  | none =>
    rcases hrun : (completeOpenclawTool c x f).run s.2 with ⟨outcome, desk⟩
    simp only
    refine ⟨hadmitted.completed x.request outcome, ?_⟩
    rcases hend with ⟨hheld, -⟩ | hreleased
    · have hiff := (complete_iff (c := c) (f := f) hheld hn hgate).2 hf
      have hreturned : ∀ response, outcome = .ok response → Released g n desk := by
        intro response ho
        have := complete_returned (c := c) (f := f) hheld hn hgate (by rw [hrun, ho])
        rwa [hrun] at this
      rw [hrun] at hiff
      cases outcome with
      | error fault =>
        rcases hiff with hheld' | hreleased'
        · exact .inl ⟨hheld', by simp [Session.completed, Session.change, hc]⟩
        · exact .inr hreleased'
      | ok response => exact .inr (hreturned response rfl)
    · obtain ⟨fault, hrun'⟩ := complete_again (c := c) (f := f) hreleased hn
      rw [hrun] at hrun'
      obtain ⟨-, rfl⟩ := Prod.mk.inj hrun'
      exact .inr hreleased

/-- Requests for the execution carry its name, and no callback that runs under the name stops halfway. -/
def Whole (c : Setup) (g : Grip) (e : Value) (n : String) (a : CompletionRequest × Raises) : Prop :=
  (a.1.request.executionId = e → a.1.executionName = n) ∧ (a.1.executionName = n → wholeOrNothing c g a.1 a.2 = true)

theorem Settling.requests (hgate : g.permitted → c.dependencyInstallGate) (l : List (CompletionRequest × Raises)) :
    ∀ s, Settling g e n r sha s → (∀ a ∈ l, Whole c g e n a) → Settling g e n r sha (completionRequests c s l) := by
  induction l with
  | nil =>
    intro s h _
    exact h
  | cons a l ih =>
    intro s h hl
    refine ih _ ?_ fun b hb => hl b (List.mem_cons_of_mem a hb)
    obtain ⟨hname, hwhole⟩ := hl a List.mem_cons_self
    by_cases hx : a.1.request.executionId = e
    · exact h.request hgate hx (hname hx) (hwhole (hname hx))
    · by_cases hn : a.1.executionName = n
      · exact h.namesake hgate (Ne.symm hx) hn (hwhole hn)
      · exact h.other (Ne.symm hx) (Ne.symm hn) a.2

theorem Settling.retry (h : Settling g e n r sha s) (hgate : g.permitted → c.dependencyInstallGate)
    (hheld : Held g n s.2) {x : CompletionRequest} (hx : x.request.executionId = e) (hn : x.executionName = n)
    (hsha : x.request.commandSha256 = sha) (hw : wellFormed g x = true) :
    (completionRequest c s x {}).2 = .acknowledged ((∅ : Fields).set "status" (.text "COMPLETED")) false ∧
      Released g n (completionRequest c s x {}).1.2 := by
  have hnone : (s.1.objects r).completion = none := by
    rcases h.2 with ⟨-, hnone⟩ | hreleased
    · exact hnone
    · have := hheld.reservation
      rw [hreleased.reservation] at this
      cases this
  have hok := complete_wellFormed (c := c) hheld hn hw hgate
  have hreleased := complete_returned (c := c) (f := {}) hheld hn hgate hok
  unfold completionRequest
  rw [h.1.completion_eq hx, if_neg (not_not.2 hsha.symm), hnone]
  rcases hrun : (completeOpenclawTool c x {}).run s.2 with ⟨outcome, desk⟩
  rw [hrun] at hok hreleased
  subst hok
  exact ⟨rfl, hreleased⟩

theorem released_desk (hreleased : Released g n s.2) (x : CompletionRequest) (f : Raises) :
    Released g n (completionRequest c s x f).1.2 := by
  by_cases hn : x.executionName = n
  · rcases completionRequest_desk (c := c) s x f with hdesk | hdesk
    · rw [hdesk]
      exact hreleased
    · obtain ⟨fault, hrun⟩ := complete_again (c := c) (f := f) hreleased hn
      rw [hdesk, hrun]
      exact hreleased
  · exact hreleased.of_entry (completionRequest_entry (Ne.symm hn) f)

theorem released_requests (l : List (CompletionRequest × Raises)) :
    ∀ s : Session × Desk, Released g n s.2 → Released g n (completionRequests c s l).2 := by
  induction l with
  | nil =>
    intro s hreleased
    exact hreleased
  | cons a l ih =>
    intro s hreleased
    exact ih _ (released_desk hreleased a.1 a.2)

/-- An attempt ends whole exactly under `wholeOrNothing`, and so does every list of attempts. -/
theorem completion_whole_or_nothing {s : Session} {d : Desk} (hs : Admitted e r sha s)
    (hopen : (s.objects r).completion = none) (hd : Held g n d) (hgate : g.permitted → c.dependencyInstallGate) :
    (∀ x f, x.executionName = n →
      ((Held g n ((completeOpenclawTool c x f).run d).2 ∨ Released g n ((completeOpenclawTool c x f).run d).2) ↔
        wholeOrNothing c g x f = true)) ∧
    ∀ l, (∀ a ∈ l, Whole c g e n a) →
      (Held g n (completionRequests c (s, d) l).2 ∧
        ∀ x, x.request.executionId = e → x.executionName = n → x.request.commandSha256 = sha → wellFormed g x = true →
          (completionRequest c (completionRequests c (s, d) l) x {}).2 =
              .acknowledged ((∅ : Fields).set "status" (.text "COMPLETED")) false ∧
            Released g n (completionRequest c (completionRequests c (s, d) l) x {}).1.2) ∨
      ∀ l', Released g n (completionRequests c (completionRequests c (s, d) l) l').2 := by
  constructor
  · intro x f hx
    exact complete_iff hd hx hgate
  · intro l hl
    have h := Settling.requests hgate l (s, d) ⟨hs, .inl ⟨hd, hopen⟩⟩ hl
    rcases h.2 with ⟨hheld, -⟩ | hreleased
    · exact .inl ⟨hheld, fun x hx hn hsha hw => h.retry hgate hheld hx hn hsha hw⟩
    · exact .inr fun l' => released_requests l' _ hreleased

end Requests

def exampleRoute : Route := ⟨.text "sandbox", .number 1, .text "host", .number 22⟩

def exampleGrip : Grip := ⟨(64, 96), exampleRoute, true, true⟩

def exampleDesk : Desk :=
  let one := (∅ : PySet String).add "7"
  { activeReservations := (∅ : PyDict String (ℤ × ℤ)).set "7" (64, 96)
    admittedRoutes := (∅ : PyDict String Route).set "7" exampleRoute
    hostRssSamplers := one
    activeCpuPlacements := one
    memory := (∅ : PyDict String (ℤ × ℤ)).set "7" (64, 96)
    cpus := one
    permits := one }

def exampleSession : Session :=
  (({} : Session).create ⟨.number 7, .text "sha", ∅⟩).change 0 fun x =>
    { x with admission := some ∅, admitting := false }

def exampleRequest (code : ExitCode) : CompletionRequest :=
  ⟨⟨.number 7, .text "sha", ∅⟩, "7", fun _ h => (nomatch h), .at 1, .at 2, .at 3, exampleRoute, code⟩

theorem exampleDesk_held : Held exampleGrip "7" exampleDesk :=
  ⟨by decide, by decide, by decide, by decide, by decide, by decide, by decide, fun _ => rfl⟩

theorem exampleSession_admitted : Admitted (.number 7) 0 (.text "sha") exampleSession := by
  refine ⟨by decide, fun o ho => ?_, by decide, by decide, by decide⟩
  have hmem : (o, 0) ∈ [((Value.number 7, 0) : Value × ℕ)] := PyDict.mem_of_get? ho
  simpa using hmem

theorem completion_retried :
    Released exampleGrip "7"
      (completionRequest ⟨true, true⟩
        (completionRequests ⟨true, true⟩ (exampleSession, exampleDesk)
          [({ exampleRequest (.int 0) with endpoint := ⟨.null, .null, .null, .null⟩ }, { samplerStop := true })])
        (exampleRequest (.int 0)) {}).1.2 := by
  have h := (completion_whole_or_nothing (c := ⟨true, true⟩) exampleSession_admitted (by decide) exampleDesk_held
    (fun _ => rfl)).2 [({ exampleRequest (.int 0) with endpoint := ⟨.null, .null, .null, .null⟩ },
      { samplerStop := true })]
    (by
      intro a ha
      obtain rfl := List.mem_singleton.mp ha
      exact ⟨fun _ => rfl, fun _ => by decide +kernel⟩)
  rcases h with ⟨-, h⟩ | h
  · exact (h (exampleRequest (.int 0)) rfl rfl rfl (by decide +kernel)).2
  · exact h [(exampleRequest (.int 0), {})]

theorem completion_malformed_stuck :
    Admitted (.number 7) 0 (.text "sha") exampleSession ∧ Held exampleGrip "7" exampleDesk ∧
      ¬(Held exampleGrip "7"
          (completionRequest ⟨true, true⟩ (exampleSession, exampleDesk) (exampleRequest .malformed) {}).1.2 ∨
        Released exampleGrip "7"
          (completionRequest ⟨true, true⟩ (exampleSession, exampleDesk) (exampleRequest .malformed) {}).1.2) ∧
      (completionRequest ⟨true, true⟩
          (completionRequest ⟨true, true⟩ (exampleSession, exampleDesk) (exampleRequest .malformed) {}).1
          (exampleRequest (.int 0)) {}).2 =
        runtimeError "completion has no active admission" := by
  refine ⟨exampleSession_admitted, exampleDesk_held, ?_, by decide +kernel⟩
  rintro (h | h)
  · exact absurd h.reservation (by decide +kernel)
  · exact absurd h.memory (by decide +kernel)

end ClawBox.Control
