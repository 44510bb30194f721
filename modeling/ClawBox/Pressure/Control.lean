import ClawBox.Lib.PyDict
import ClawBox.Lib.Raising
import ClawBox.Lib.Transition
import Mathlib.Logic.Function.Basic

namespace ClawBox.Pressure

open Transition

inductive Role
  | runtime
  | tool
  deriving DecidableEq

inductive Control
  | memoryLow
  | cpuWeight
  deriving DecidableEq

structure Settings where
  low : ℕ
  weight : ℕ
  deriving DecidableEq

def Settings.get (x : Settings) : Control → ℕ
  | .memoryLow => x.low
  | .cpuWeight => x.weight

def Settings.put (x : Settings) : Control → ℕ → Settings
  | .memoryLow, v => { x with low := v }
  | .cpuWeight, v => { x with weight := v }

/-- One cgroup directory; `high = none` reads `max`. -/
structure Leaf where
  present : Bool := false
  settings : Settings := ⟨0, 100⟩
  high : Option ℕ := none
  idle : Bool := false
  deriving DecidableEq

def Leaf.put (x : Leaf) (c : Control) (v : ℕ) : Leaf := { x with settings := x.settings.put c v }

inductive Phase
  | toolActive
  | llmWaiting
  | ready
  | transition
  | inactive
  deriving DecidableEq

structure VM where
  session : String
  role : Role
  group : String
  node : Option ℕ
  sandbox : String := ""
  generation : ℕ := 0
  phase : Phase := .transition
  active : PySet String := ∅
  pending : PySet String := ∅
  finished : PySet String := ∅
  waits : PySet String := ∅
  responses : PySet String := ∅
  saved : Settings := ⟨0, 100⟩
  actionSince : Option ℤ := none
  cooldownUntil : ℤ := 0
  modified : PySet Control := ∅
  cpuIdle : Bool := false

def VM.refresh (vm : VM) : VM :=
  { vm with phase :=
      if vm.active.entries ≠ [] then .toolActive
      else if vm.pending.entries ≠ [] then .ready
      else if vm.waits.entries ≠ [] then .llmWaiting
      else .inactive }

structure Forecast where
  generation : ℕ
  expiresAt : ℤ
  releasableBytes : ℤ
  baselineBytes : Option ℤ

structure Options where
  protectionBudget : ℕ
  maxBoostedVms : ℕ
  boostCpuWeight : ℕ
  minRelease : ℤ
  cooldown : ℤ
  actionWindow : ℤ
  exitHysteresis : ℤ
  memoryProtection : Bool
  cpuReleaseBoost : Bool

structure World where
  leaves : String → Leaf
  objects : ℕ → VM := fun _ => { session := "", role := .tool, group := "", node := none }
  created : ℕ := 0
  vms : PyDict (String × Role) ℕ := ∅
  domains : PyDict String ℕ := ∅
  lastPressure : PyDict (Option ℕ) ℤ := ∅
  releaseForecasts : PyDict (String × String) Forecast := ∅
  -- what the last registration of a leaf saved; only the statements look at it
  savedOf : String → Option Settings := fun _ => none

inductive Fault
  | io
  | keyError
  | missingPsi
  | notIdle
  | nondefaultControls
  deriving DecidableEq

/-- The writes of a roll-back that raise. -/
abbrev Fails := Control → Bool

abbrev Step := Raising World Fault

open Raising

def World.putVM (w : World) (r : ℕ) (vm : VM) : World := { w with objects := Function.update w.objects r vm }

def World.putLeaf (w : World) (group : String) (leaf : Leaf) : World :=
  { w with leaves := Function.update w.leaves group leaf }

def changeVM (r : ℕ) (f : VM → VM) : Step Unit := modify fun w => w.putVM r (f (w.objects r))

def writeText (group : String) (c : Control) (value : ℕ) (fails : Bool) : Step Unit := do
  let w ← get
  if fails ∨ (w.leaves group).present = false then raise .io
  else
    modify fun w => w.putLeaf group ((w.leaves group).put c value)

def putBack (r : ℕ) (c : Control) (fails : Bool) : Step Unit := do
  let w ← get
  if (w.leaves (w.objects r).group).present then writeText (w.objects r).group c ((w.objects r).saved.get c) fails
  else pure ()

def restoreLoop (r : ℕ) (fails : Fails) : List Control → Step Unit
  | [] => pure ()
  | c :: cs => do
    putBack r c (fails c)
    changeVM r fun vm => { vm with modified := vm.modified.discard c }
    restoreLoop r fails cs

def VM.cool (f : ℤ → ℤ) (vm : VM) : VM :=
  if vm.actionSince.isSome then { vm with cooldownUntil := f vm.cooldownUntil } else vm

def restore (o : Options) (r : ℕ) (now : ℤ) (fails : Fails) : Step Unit := do
  changeVM r (VM.cool fun t => max t (now + o.cooldown))
  let w ← get
  restoreLoop r fails (w.objects r).modified.keys
  changeVM r fun vm => { vm with actionSince := none }

def defaultSettings (cpuIdle : Bool) : Settings := ⟨0, if cpuIdle then 0 else 100⟩

structure Registration where
  session : String
  role : Role
  group : String
  node : Option ℕ
  coordinator : ℕ
  cpuIdle : Bool := false

def restorePrevious (o : Options) (previous : Option ℕ) (now : ℤ) (fails : Fails) : Step Unit :=
  match previous with
  | none => pure ()
  | some r => restore o r now fails

def enter (x : Registration) (saved : Settings) (previous : Option ℕ) (w : World) : World :=
  let r := previous.getD w.created
  let vm : VM :=
    match previous with
    | some r => { w.objects r with group := x.group, node := x.node, saved := saved, cpuIdle := x.cpuIdle }
    | none =>
      { session := x.session, role := x.role, group := x.group, node := x.node, saved := saved, cpuIdle := x.cpuIdle }
  { w with
    objects := Function.update w.objects r vm
    created := if previous.isSome then w.created else w.created + 1
    vms := w.vms.set (x.session, x.role) r
    domains := w.domains.set x.session x.coordinator
    savedOf := Function.update w.savedOf x.group (some saved) }

def register (o : Options) (x : Registration) (now : ℤ) (fails : Fails) (psiMissing readFails : Bool) : Step Unit := do
  let w ← get
  let previous := w.vms.get? (x.session, x.role)
  restorePrevious o previous now fails
  if x.role = .tool ∧ psiMissing then raise .missingPsi
  else do
    let w ← get
    let leaf := w.leaves x.group
    if readFails ∨ leaf.present = false then raise .io
    else if x.cpuIdle ∧ leaf.idle = false then raise .notIdle
    else if leaf.settings ≠ defaultSettings x.cpuIdle ∨ leaf.high.isSome then raise .nondefaultControls
    else modify (enter x leaf.settings previous)

def VM.renew (sandbox : String) (cooldownUntil : ℤ) (vm : VM) : VM :=
  VM.refresh { vm with generation := vm.generation + 1, sandbox := sandbox, cooldownUntil := cooldownUntil }

def generation (o : Options) (session : String) (role : Role) (sandbox : String) (now : ℤ) (fails : Fails) :
    Step Unit := do
  let w ← get
  match w.vms.get? (session, role) with
  | none => raise .keyError
  | some r => do
    restore o r now fails
    changeVM r (VM.renew sandbox (now + o.cooldown))

def transition (o : Options) (session : String) (role : Role) (now : ℤ) (fails : Fails) : Step Unit := do
  let w ← get
  match w.vms.get? (session, role) with
  | none => raise .keyError
  | some r => do
    restore o r now fails
    changeVM r fun vm => { vm with phase := .transition }

inductive Kind
  | modelStart
  | modelEnd
  | ready
  | start
  | complete
  deriving DecidableEq

def VM.tell (vm : VM) (kind : Kind) (identifier : String) : VM :=
  match kind with
  | .modelStart =>
    if (vm.responses.get? identifier).isSome then vm else { vm with waits := vm.waits.add identifier }
  | .modelEnd =>
    { vm with responses := vm.responses.add identifier, waits := vm.waits.discard identifier }
  | .ready =>
    if vm.role = .tool ∧ (vm.finished.get? identifier).isNone then { vm with pending := vm.pending.add identifier }
    else vm
  | .start =>
    if vm.role = .tool ∧ (vm.pending.get? identifier).isSome ∧ (vm.finished.get? identifier).isNone then
      { vm with pending := vm.pending.discard identifier, active := vm.active.add identifier }
    else vm
  | .complete =>
    if vm.role = .tool then
      { vm with
        finished := vm.finished.add identifier
        active := vm.active.discard identifier
        pending := vm.pending.discard identifier }
    else vm

def forecastAfter (vm : VM) (kind : Kind) (identifier : String) (forecast : Option Forecast)
    (d : PyDict (String × String) Forecast) : PyDict (String × String) Forecast :=
  match kind with
  | .start =>
    if vm.role = .tool ∧ (vm.pending.get? identifier).isSome ∧ (vm.finished.get? identifier).isNone then
      match forecast with
      | some f => d.set (vm.session, identifier) { f with generation := vm.generation }
      | none => d
    else d
  | .complete => if vm.role = .tool then d.pop (vm.session, identifier) else d
  | _ => d

def World.foresee (r : ℕ) (kind : Kind) (identifier : String) (forecast : Option Forecast) (w : World) : World :=
  { w with releaseForecasts := forecastAfter (w.objects r) kind identifier forecast w.releaseForecasts }

def eventRole (o : Options) (session : String) (kind : Kind) (identifier : String) (now : ℤ)
    (forecast : Option Forecast) (role : Role) (fails : Fails) : Step Unit := do
  let w ← get
  match w.vms.get? (session, role) with
  | none => pure ()
  | some r => do
    modify (World.foresee r kind identifier forecast)
    changeVM r fun vm => (vm.tell kind identifier).refresh
    if kind = .complete ∨ kind = .modelEnd then restore o r now fails else pure ()

def event (o : Options) (session : String) (kind : Kind) (identifier : String) (now : ℤ)
    (forecast : Option Forecast) (fails : Role → Fails) : Step Unit := do
  eventRole o session kind identifier now forecast .runtime (fails .runtime)
  eventRole o session kind identifier now forecast .tool (fails .tool)

def unregisterRole (o : Options) (session : String) (now : ℤ) (role : Role) (fails : Fails) : Step Unit := do
  let w ← get
  modify fun w => { w with vms := w.vms.pop (session, role) }
  restorePrevious o (w.vms.get? (session, role)) now fails

def unregister (o : Options) (session : String) (now : ℤ) (fails : Role → Fails) : Step Unit := do
  unregisterRole o session now .runtime (fails .runtime)
  unregisterRole o session now .tool (fails .tool)
  modify fun w => { w with domains := w.domains.pop session }

structure Left where
  protection : ℕ
  boosts : ℕ
  deriving DecidableEq

structure Poll where
  began : ℤ
  reclaimContended : Bool
  domains : PyDict String ℕ
  -- the coordinators whose feedback says `memory_blocked`
  blocked : List ℕ
  todo : List ℕ
  left : Left

/-- What one VM of a poll reads, and which accesses raise. -/
structure Glance where
  now : ℤ
  reclaim : Bool
  cpuContended : Bool
  workingSet : ℕ
  currentBytes : ℤ
  -- `cpuset.mems.effective` is the VM's node
  onNode : Bool
  restoreFails : Fails := fun _ => false
  sampleFails : Bool := false
  memsFails : Bool := false
  readFails : Fails := fun _ => false
  writeFails : Fails := fun _ => false

def isBlocked (p : Poll) (vm : VM) : Bool :=
  match p.domains.get? vm.session with
  | none => false
  | some d => p.blocked.contains d

def valid (o : Options) (w : World) (vm : VM) (began currentBytes : ℤ) : Bool :=
  vm.active.keys.any fun identifier =>
    match w.releaseForecasts.get? (vm.session, identifier) with
    | none => false
    | some f =>
      f.generation = vm.generation && decide (f.expiresAt > began) && decide (f.releasableBytes ≥ o.minRelease) &&
        match f.baselineBytes with
        | none => false
        | some b => decide (currentBytes - b ≥ o.minRelease)

def mayBoost (o : Options) (p : Poll) (vm : VM) (x : Glance) : Bool :=
  isBlocked p vm && decide (p.left.boosts ≠ 0) && x.cpuContended && !vm.cpuIdle && vm.node.isSome && o.cpuReleaseBoost

def boosted (o : Options) (p : Poll) (w : World) (vm : VM) (x : Glance) : Bool :=
  mayBoost o p vm x && x.onNode && valid o w vm p.began x.currentBytes

def lowFor (o : Options) (p : Poll) (x : Glance) : ℕ :=
  if o.memoryProtection && x.reclaim then min x.workingSet p.left.protection else 0

def weightFor (o : Options) (p : Poll) (r : ℕ) (x : Glance) (w : World) : ℕ :=
  if boosted o p w (w.objects r) x then o.boostCpuWeight else (w.objects r).saved.weight

def leftAfter (o : Options) (p : Poll) (r : ℕ) (x : Glance) (w : World) : Left :=
  ⟨p.left.protection - lowFor o p x,
    if boosted o p w (w.objects r) x then p.left.boosts - 1 else p.left.boosts⟩

def apply (r : ℕ) (c : Control) (value : ℕ) (x : Glance) : Step Unit := do
  let w ← get
  if x.readFails c ∨ (w.leaves (w.objects r).group).present = false then raise .io
  else if (w.leaves (w.objects r).group).settings.get c = value then pure ()
  else do
    changeVM r fun vm => { vm with modified := vm.modified.add c }
    writeText (w.objects r).group c value (x.writeFails c)

def since (actionSince : Option ℤ) (began : ℤ) : ℤ := (actionSince.filter (· ≠ 0)).getD began

def VM.act (o : Options) (began : ℤ) (low weight : ℕ) (vm : VM) : VM :=
  if low ≠ 0 ∨ weight ≠ vm.saved.weight then { vm with actionSince := some (since vm.actionSince began) }
  else
    { vm with
      cooldownUntil := if vm.actionSince.isSome then began + o.cooldown else vm.cooldownUntil
      actionSince := none }

def grant (o : Options) (p : Poll) (r : ℕ) (x : Glance) : Step Left := do
  let w ← get
  if mayBoost o p (w.objects r) x ∧ x.memsFails then raise .io
  else do
    apply r .memoryLow (lowFor o p x) x
    apply r .cpuWeight (weightFor o p r x w) x
    changeVM r (VM.act o p.began (lowFor o p x) (weightFor o p r x w))
    pure (leftAfter o p r x w)

def ease (o : Options) (p : Poll) (r : ℕ) (x : Glance) : Step Left := do
  restore o r x.now x.restoreFails
  pure p.left

def windowOver (o : Options) (vm : VM) (began : ℤ) : Bool :=
  match vm.actionSince with
  | none => false
  | some t => decide (began - t ≥ o.actionWindow)

def World.press (blocked : Bool) (domain : Option ℕ) (began : ℤ) (w : World) : World :=
  { w with lastPressure := if blocked then w.lastPressure.set domain began else w.lastPressure }

def visit (o : Options) (p : Poll) (r : ℕ) (x : Glance) : Step Left := do
  let w ← get
  let vm := w.objects r
  let domain := p.domains.get? vm.session
  let previousPressure := (w.lastPressure.get? domain).getD 0
  if w.vms.get? (vm.session, vm.role) ≠ some r then pure p.left
  else do
    modify (World.press (isBlocked p vm) domain p.began)
    if vm.role ≠ .tool ∨ vm.phase ≠ .toolActive then ease o p r x
    else if ¬(isBlocked p vm ∨ p.reclaimContended ∨ p.began - previousPressure < o.exitHysteresis) then ease o p r x
    else if x.sampleFails then raise .io
    else if p.began < vm.cooldownUntil ∨ windowOver o vm p.began then do
      changeVM r (VM.cool fun _ => p.began + o.cooldown)
      ease o p r x
    else grant o p r x

def restoreIfKept (o : Options) (r : ℕ) (now : ℤ) (fails : Fails) : Step Unit := do
  let w ← get
  if w.vms.get? ((w.objects r).session, (w.objects r).role) ≠ some r then pure ()
  else restore o r now fails

inductive Poller
  | idle
  | polling (p : Poll)
  -- `_restore_all(exc)` after a failed poll; `clean` tells that no roll-back of it raised
  | failed
  | rescuing (todo : List ℕ) (clean : Bool)
  | rescued (clean : Bool)
  -- left the loop because of `stop_event`, or was never started
  | ended

inductive Closer
  | none
  | joining
  | restoring (todo : List ℕ)
  -- every VM was restored; `close` still raises if the poller had failed
  | restored
  | raised

structure State where
  world : World
  poller : Poller
  -- the calls of `close`, each under a number of its own
  closers : ℕ → Closer := fun _ => .none
  stop : Bool := false

inductive Action
  -- the host makes, removes or resets a leaf that no registered VM has
  | prepare (group : String) (leaf : Leaf)
  -- the directory of a leaf goes away
  | vanish (group : String)
  | register (x : Registration) (now : ℤ) (fails : Fails) (psiMissing readFails : Bool)
  | generation (session : String) (role : Role) (sandbox : String) (now : ℤ) (fails : Fails)
  | transition (session : String) (role : Role) (now : ℤ) (fails : Fails)
  | event (session : String) (kind : Kind) (identifier : String) (now : ℤ) (forecast : Option Forecast)
      (fails : Role → Fails)
  | unregister (session : String) (now : ℤ) (fails : Role → Fails)
  | pollBegin (began : ℤ) (reclaimContended : Bool) (blocked : List ℕ)
  | pollVisit (r : ℕ) (x : Glance)
  | pollEnd
  -- the poll raises between two VMs: a read of the parent, a coordinator's feedback, `emit`
  | pollFail
  | rescueBegin
  | rescue (now : ℤ) (fails : Fails)
  | rescueEnd
  | retire
  | close (i : ℕ)
  | joinTimeout (i : ℕ)
  | closeBegin (i : ℕ)
  | closeVisit (i : ℕ) (now : ℤ) (fails : Fails)
  | closeEnd (i : ℕ)

abbrev Outcome := Except Fault Unit

namespace State

def registered (w : World) : List ℕ := w.vms.values

def call (s : State) (x : Step Unit) : Option (State × Outcome) :=
  some ({ s with world := (x.run s.world).2 }, (x.run s.world).1)

def after (s : State) : Option (State × Outcome) := some (s, .ok ())

def putCloser (s : State) (i : ℕ) (c : Closer) : State := { s with closers := Function.update s.closers i c }

-- A step is a section under a session lock: one VM of a poll, or one call.
def next (o : Options) (s : State) : Action → Option (State × Outcome)
  | .prepare g leaf =>
    if s.world.vms.values.any fun r => (s.world.objects r).group = g then none
    else after { s with world := { s.world.putLeaf g leaf with savedOf := Function.update s.world.savedOf g none } }
  | .vanish g => after { s with world := s.world.putLeaf g {} }
  | .register x now fails psiMissing readFails => s.call (register o x now fails psiMissing readFails)
  | .generation session role sandbox now fails => s.call (generation o session role sandbox now fails)
  | .transition session role now fails => s.call (transition o session role now fails)
  | .event session kind identifier now forecast fails => s.call (event o session kind identifier now forecast fails)
  | .unregister session now fails => s.call (unregister o session now fails)
  | .pollBegin began reclaimContended blocked =>
    match s.poller, s.stop with
    | .idle, false =>
      after { s with poller := .polling ⟨began, reclaimContended, s.world.domains, blocked, registered s.world,
        ⟨o.protectionBudget, o.maxBoostedVms⟩⟩ }
    | _, _ => none
  | .pollVisit r x =>
    match s.poller with
    | .polling p =>
      if r ∈ p.todo then
        match (visit o p r x).run s.world with
        | (.ok left, w) =>
          after { s with world := w, poller := .polling { p with todo := p.todo.filter (· ≠ r), left := left } }
        | (.error e, w) => some ({ s with world := w, poller := .failed }, .error e)
      else none
    | _ => none
  | .pollEnd =>
    match s.poller with
    | .polling p => if p.todo = [] then after { s with poller := .idle } else none
    | _ => none
  | .pollFail =>
    match s.poller with
    | .idle => if s.stop then none else some ({ s with poller := .failed }, .error .io)
    | .polling _ => some ({ s with poller := .failed }, .error .io)
    | _ => none
  | .rescueBegin =>
    match s.poller with
    | .failed => after { s with poller := .rescuing (registered s.world) true }
    | _ => none
  | .rescue now fails =>
    match s.poller with
    | .rescuing (r :: todo) clean =>
      match (restoreIfKept o r now fails).run s.world with
      | (.ok (), w) => after { s with world := w, poller := .rescuing todo clean }
      | (.error e, w) => some ({ s with world := w, poller := .rescuing todo false }, .error e)
    | _ => none
  | .rescueEnd =>
    match s.poller with
    | .rescuing [] clean => after { s with poller := .rescued clean }
    | _ => none
  | .retire =>
    match s.poller, s.stop with
    | .idle, true => after { s with poller := .ended }
    | _, _ => none
  | .close i =>
    match s.closers i with
    | .none => after { s.putCloser i .joining with stop := true }
    | _ => none
  | .joinTimeout i =>
    match s.closers i with
    | .joining => after (s.putCloser i .raised)
    | _ => none
  | .closeBegin i =>
    match s.closers i, s.poller with
    | .joining, .ended => after (s.putCloser i (.restoring (registered s.world)))
    | .joining, .rescued _ => after (s.putCloser i (.restoring (registered s.world)))
    | _, _ => none
  | .closeVisit i now fails =>
    match s.closers i with
    | .restoring (r :: todo) =>
      match (restoreIfKept o r now fails).run s.world with
      | (.ok (), w) => after { s.putCloser i (.restoring todo) with world := w }
      | (.error e, w) => some ({ s.putCloser i .raised with world := w }, .error e)
    | _ => none
  | .closeEnd i =>
    match s.closers i with
    | .restoring [] => after (s.putCloser i .restored)
    | _ => none

def Start (s : State) : Prop :=
  (∃ leaves, s.world = { leaves := leaves }) ∧ (s.poller = .idle ∨ s.poller = .ended) ∧ (∀ i, s.closers i = .none) ∧
    s.stop = false

def system (o : Options) : System State (Action × Outcome) := .ofNext Start (next o)

end State

end ClawBox.Pressure
