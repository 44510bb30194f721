import ClawBox.Policy.Discipline

namespace ClawBox.Policy

open Admission Monitor Monitor.Spec Transition

def Ask.Released (n : ℕ) : Ask → Prop
  | physical _ => n = 0
  | globalMemory => n = 0
  | pendingDemand => n = 0
  | hostPhysical _ => n = 0
  | eventWait _ => n = 0
  | conditionWait => n = 0
  | pressureRelief _ _ => n = 0
  | checkpoint _ _ _ => n = 0
  | returned depth => n = depth
  | _ => True

instance (n : ℕ) : DecidablePred (Ask.Released n) := by
  intro q
  cases q <;> unfold Ask.Released <;> infer_instance

def Ask.entry : Ask → ℕ
  | pressureRelief _ entry => entry
  | checkpoint _ _ entry => entry
  | _ => 0

def Ask.FreeEntry (q : Ask) : Prop := q.entry = 0

def capacityArgs (session : Session) (amountMib : ℕ) (timeout : ℤ) : AcquireArgs :=
  { session, amountMib, timeout := some timeout, capacityClaim := true }

def lifecycleArgs (session : Session) (amountMib : ℕ) (timeout : ℤ) (waitClass : WaitClass) : AcquireArgs :=
  { session, amountMib, timeout := some timeout, waitClass }

def Call.blocksFirst (G : Plant) : Call → Prop
  | acquire c a => a.samplesFirst (G.coord c)
  | acquireCapacity c session amountMib timeout => (capacityArgs session amountMib timeout).samplesFirst (G.coord c)
  | beginToolAdmission c x =>
    (x.amountMib ≠ 0 ∨ x.totalMib.getD 0 ≠ 0) ∧ (G.coord c).residentCapacityAccounting = false
  | materialize c session amountMib timeout =>
    (lifecycleArgs session amountMib timeout .create).samplesFirst (G.coord c)
  | restore c session amountMib timeout =>
    (lifecycleArgs session amountMib timeout .restore).samplesFirst (G.coord c)
  | place _ => True
  | _ => False

variable (G : Plant)

def ownership : Spec (sig G) where
  Inv _ := True
  ActOk _ _ _ := True
  AskOk q n := Ask.Released n q
  AskMay := Ask.FreeEntry
  Meets _ _ _ := True
  Rely _ _ _ _ := True
  inv_act _ _ := trivial
  rely_refl _ := trivial
  rely_act _ _ _ _ _ := trivial

variable {G} {t : Thread} {n : ℕ}

theorem ownership_asks : Asks (ownership G) := by
  intro q n hfine hmay
  cases q <;> simp_all [ownership, Ask.Fine, Ask.Released, Ask.FreeEntry, Ask.entry]

theorem ownership_discipline : Discipline (ownership G) t (fun _ => True) :=
  ⟨fun _ _ _ _ _ _ _ => trivial, ownership_asks, fun _ _ _ _ _ => ⟨trivial, trivial⟩⟩

theorem ownership_perform (a : Act) : Steady (ownership G) t (n + 1) (fun _ => True) (perform a : M G a.Out) := by
  apply Steady.bind
  · exact Triple.act fun _ _ _ => ⟨trivial, trivial⟩
  · intro r
    exact Steady.result r

theorem ownership_carries (c : CoordId) (a : AcquireArgs) :
    Carries (ownership G) t n c a (fun _ => True) (fun _ _ => True) (fun _ _ _ => True) (fun _ _ => True)
      (fun _ _ => True) where
  before := ownership_discipline
  queued _ _ := ownership_discipline
  enqueue _ _ _ := ⟨trivial, trivial⟩
  consider k b _ := by
    apply considerTicket_triple ownership_discipline c a k b (B := fun _ => True) trivial
    · exact fun _ _ _ _ _ _ => trivial
    · intro batch _
      apply (decisionCheck_steady ownership_discipline c a batch b.observations).post
      exact fun r s _ _ => ⟨trivial, fun _ _ => trivial⟩
  commit k f reading s _ _ _ _ := by
    refine ⟨trivial, ?_⟩
    unfold Landed
    split <;> trivial
  failed _ _ _ := trivial
  abandon _ _ _ _ _ _ := ⟨trivial, trivial⟩

theorem ownership_samples (hn : n = 0) : SamplesAt (ownership G) n := by
  subst hn
  exact ownership_asks.samples

theorem ownership_acquire (c : CoordId) (a : AcquireArgs) (h : a.samplesFirst (G.coord c) → n = 0) :
    Steady (ownership G) t n (fun _ => True) (acquire c a n t : M G ℤ) :=
  acquire_triple ownership_asks (fun _ _ _ _ _ _ _ => trivial) (fun _ => ownership_carries c a)
    (fun _ _ _ _ _ _ _ _ => trivial) (fun _ _ _ => trivial) (fun _ _ _ => trivial) (fun hs => ownership_samples (h hs))

theorem ownership_releaseCall (c : CoordId) (session : Session) (amountMib : ℕ) (waitClass : WaitClass)
    (totalMib : Option ℕ) :
    Steady (ownership G) t n (fun _ => True) (releaseCall c session amountMib waitClass totalMib : M G Unit) :=
  releaseCall_steady ownership_discipline fun _ => ownership_perform _

theorem ownership_sampleFeedback (counted : List Domain) (d : Domain) (memoryMib : ℕ) (now : ℤ) :
    Steady (ownership G) t (n + 1) (fun _ => True) (sampleFeedback counted d memoryMib now : M G Feedback) := by
  apply Steady.bind (Steady.sampled (Steady.query ownership_asks (.rankingSample _) trivial))
  intro used
  apply Steady.bind Steady.getState
  intro s
  apply Steady.bind (pressureReasons_steady ownership_discipline _ _)
  intro r
  apply Steady.bind (ownership_perform _)
  intro _
  exact Steady.pure _

theorem ownership_placementMemory (counted : List Domain) (d : Domain) (memoryMib : ℕ) :
    Steady (ownership G) t (n + 1) (fun _ => True) (placementMemory counted d memoryMib : M G Feedback) := by
  apply Steady.bind (Steady.monotonic ownership_asks)
  intro now
  apply Steady.bind Steady.getState
  intro s
  split
  · exact Steady.ite (fun _ => Steady.pure _) (fun _ => ownership_sampleFeedback counted d memoryMib now)
  · exact ownership_sampleFeedback counted d memoryMib now

theorem ownership_rankDomains (x : PlaceArgs) (cpu : Domain → List ℚ) (counted ds : List Domain) :
    Steady (ownership G) t (n + 1) (fun _ => True) (rankDomains x cpu counted ds : M G (List Candidate)) := by
  induction ds generalizing counted with
  | nil => exact Steady.pure _
  | cons d ds ih =>
    apply Steady.bind Steady.getState
    intro s
    apply Steady.ite
    · intro _
      apply Steady.bind
      · apply Steady.bind (ownership_placementMemory _ d _)
        intro f
        apply Steady.bind Steady.getState
        intro s'
        exact Steady.pure _
      · intro candidate
        apply Steady.bind (ih _)
        intro rest
        exact Steady.pure _
    · intro _
      exact ih counted

theorem ownership_chooseAndRecord (x : PlaceArgs) (keys : List Domain) (started timeout : ℤ) :
    Steady (ownership G) t n (fun _ => True) (chooseAndRecord x keys started timeout : M G _) := by
  apply Steady.withCondition ownership_discipline
  apply Steady.bind (Steady.monotonic ownership_asks)
  intro now
  apply Steady.bind (Steady.ensure _ _)
  intro _
  apply Steady.bind (Steady.sampled (Steady.query ownership_asks .cpuSample trivial))
  intro cpu
  apply Steady.bind (ownership_rankDomains x cpu [] keys)
  intro candidates
  split
  · apply Steady.bind (Steady.unlocked ownership_discipline (Steady.query ownership_asks .conditionWait rfl))
    intro _
    exact Steady.pure _
  · apply Steady.bind (ownership_perform _)
    intro _
    exact Steady.pure _

theorem ownership_announce (x : PlaceArgs) (d : Domain) :
    Steady (ownership G) t n (fun _ => True) (announce x d : M G Unit) := by
  apply Steady.bind
  · apply Steady.attempt
    apply Steady.bind (Steady.withCondition ownership_discipline (ownership_perform _))
    intro _
    apply Steady.bind (Steady.query ownership_asks (.emit x.session) trivial)
    intro emitted
    exact Steady.ensure _ _
  · intro r
    cases r with
    | ok u => exact Steady.pure _
    | error e =>
      apply Steady.bind (ownership_releaseCall _ _ _ _ _)
      intro _
      apply Steady.bind (Steady.withCondition ownership_discipline (ownership_perform _))
      intro _
      apply Steady.bind (Steady.withCondition ownership_discipline (ownership_perform _))
      intro _
      exact Steady.throw e

theorem ownership_placementRound (x : PlaceArgs) (keys : List Domain) (started timeout : ℤ)
    (hn : (Call.place x).blocksFirst G → n = 0) :
    Steady (ownership G) t n (fun _ => True) (placementRound x keys started timeout n t : M G _) := by
  apply Steady.bind (ownership_chooseAndRecord x keys started timeout)
  intro r
  cases r with
  | none => exact Steady.pure _
  | some choice =>
    obtain ⟨d, left⟩ := choice
    have hacquire : Steady (ownership G) t n (fun _ => True) (acquire (G.coordinator d)
        { session := x.session, amountMib := x.memoryMib, timeout := some left, waitClass := .create
          blockedHeadTimeout := some pollInterval } n t : M G ℤ) := by
      apply ownership_acquire
      exact fun _ => hn trivial
    apply Steady.bind hacquire.attempt
    intro reserved
    cases reserved with
    | error e =>
      apply Steady.bind (Steady.withCondition ownership_discipline (ownership_perform _))
      intro _
      apply Steady.bind (Steady.ensure _ _)
      intro _
      exact Steady.pure _
    | ok waited =>
      apply Steady.bind (ownership_announce x d)
      intro _
      exact Steady.pure _

theorem ownership_placementAcquire (x : PlaceArgs) (hn : (Call.place x).blocksFirst G → n = 0) :
    Steady (ownership G) t n (fun _ => True) (placementAcquire x n t : M G Domain) := by
  have hplace : ∀ timeout, Steady (ownership G) t n (fun _ => True) (placeSession x timeout n t : M G Domain) := by
    intro timeout
    apply Steady.bind (Steady.monotonic ownership_asks)
    intro started
    apply Steady.bind (Steady.ensure _ _)
    intro _
    apply Steady.bind (Steady.ensure _ _)
    intro _
    apply Steady.forever
    intro _
    exact ownership_placementRound x _ started timeout hn
  have hgate : Steady (ownership G) t n (fun _ => True) (throughGate x n t : M G Domain) := by
    apply Steady.bind (Steady.monotonic ownership_asks)
    intro gateStarted
    apply Steady.bind (Steady.down _)
    intro passed
    apply Steady.bind (Steady.ensure _ _)
    intro _
    apply Steady.tryFinally _ (Steady.up _)
    apply Steady.bind (Steady.monotonic ownership_asks)
    intro now
    exact hplace _
  apply Steady.bind (Steady.withCondition ownership_discipline (ownership_perform _))
  intro _
  apply Steady.bind hgate.attempt
  intro outcome
  apply Steady.bind (Steady.withCondition ownership_discipline (ownership_perform _))
  intro _
  exact Steady.result _

theorem ownership_body (call : Call) (hn : call.blocksFirst G → n = 0) :
    Steady (ownership G) t n (fun _ => True) (call.body t n : M G Unit) := by
  have hlocked : ∀ a : Act, Steady (ownership G) t n (fun _ => True) (withCondition (perform a) : M G a.Out) :=
    fun a => Steady.withCondition ownership_discipline (ownership_perform a)
  have hdone : ∀ {α : Type} {x : M G α}, Steady (ownership G) t n (fun _ => True) x →
      Steady (ownership G) t n (fun _ => True) (do let _ ← x : M G Unit) := by
    intro α x hx
    apply Steady.bind hx
    intro _
    exact Steady.pure _
  cases call with
  | acquire c a => exact hdone (ownership_acquire c a hn)
  | acquireCapacity c session amountMib timeout => exact hdone (ownership_acquire c _ hn)
  | release c session amountMib waitClass totalMib => exact ownership_releaseCall _ _ _ _ _
  | releaseCapacity c session amountMib => exact hlocked _
  | unregister c session => exact hlocked _
  | register c session =>
    apply Steady.withCondition ownership_discipline
    apply Steady.bind (Steady.monotonic ownership_asks)
    intro now
    exact ownership_perform _
  | setBlocked c blocked => exact hlocked _
  | beginToolAdmission c x =>
    apply hdone
    apply beginToolAdmission_steady ownership_discipline
    · exact fun h hr => ownership_samples (hn ⟨h, hr⟩)
    · exact fun active now => ownership_perform _
    · intro o m
      apply ownership_acquire
      intro h
      unfold AcquireArgs.samplesFirst at h
      simp [ToolArgs.acquire] at h
  | materialize c session amountMib timeout =>
    exact hdone (materialize_steady ownership_discipline (ownership_acquire c _ hn) (ownership_releaseCall _ _ _ _ _))
  | restore c session amountMib timeout =>
    exact hdone (restore_steady ownership_discipline (ownership_acquire c _ hn) (ownership_releaseCall _ _ _ _ _))
  | evictOne c exclude => exact hdone (evictOneForWatermark_steady ownership_discipline c exclude)
  | reclaim c failed =>
    apply Steady.withCondition ownership_discipline
    apply Steady.bind (Steady.monotonic ownership_asks)
    intro now
    exact ownership_perform _
  | place x => exact hdone (ownership_placementAcquire x hn)
  | releasePlacement session => exact hlocked _

def EntersFree (G : Plant) (l : (Thread × Move (sig G) Invocation) × Event (sig G) Invocation) : Prop :=
  match l.2 with
  | .called i => i.call.blocksFirst G → i.depth = 0
  | .asked q _ => Ask.FreeEntry q
  | _ => True

theorem condition_released_outside (G : Plant) (init : World → Prop) {σ₀ σ : Config (sig G)}
    {ls : List ((Thread × Move (sig G) Invocation) × Event (sig G) Invocation)}
    (hstart : (admission G init).start σ₀) (hr : Run ((admission G init).restrict fun _ l => EntersFree G l) σ₀ ls σ) :
    ∀ l ∈ ls, ∀ q n, l.2 = .asked q n → Ask.Released n q := by
  have hcode : ∀ (t : Thread) (i : Invocation), (i.call.blocksFirst G → i.depth = 0) →
      (ownership G).wp t (i.code G t) (fun _ c => c.depth = 0) (.free none) := by
    intro t i hi
    exact i.wp_code ownership_asks (fun _ _ _ _ _ _ _ => trivial) (fun _ _ => trivial) (ownership_body i.call hi)
  have hmay : Run ((admission G init).restrict
      ((ownership G).May fun i : Invocation => i.call.blocksFirst G → i.depth = 0)) σ₀ ls σ := by
    apply hr.mono
    rintro s ⟨⟨t, m⟩, e⟩ s' ⟨hs, hl⟩
    refine ⟨hs, ?_⟩
    cases e with
    | silent => trivial
    | called i => exact hl
    | asked q n => exact hl
    | acted a s => exact fun _ _ _ _ => trivial
  have hsound := (sound (fun _ _ => trivial) hcode hstart hmay).2
  intro l hl q n hq
  have hok := hsound l hl
  rw [hq] at hok
  exact hok

section Nested

def tightPlant : Plant where
  coord _ := { budget := 100, progressBudget := 100, pressureRelief := true }

def freshWorld : World where
  demand := { capacity := 1000, freeFloor := 0, margin := 0 }

def fullNode : (q : Ask) → q.Ans
  | .physical _ => some (200, 1000)
  | .globalMemory => some (0, 1000)
  | .pendingDemand => some ⟨∅, by intro k x h; cases h⟩
  | .hostPhysical _ => some (0, 0)
  | .eventWait _ => ()
  | .conditionWait => ()
  | .pressureRelief _ _ => some false
  | .checkpoint _ _ _ => .nothing
  | .operation _ _ => (true, false)
  | .emit _ => true
  | .leads => true
  | .monotonic => 0
  | .check => true
  | .severe _ => some false
  | .resident _ _ => true
  | .runtimeResident _ _ => true
  | .sampler _ => some (0, 0)
  | .cpuSample => some fun _ => []
  | .rankingSample _ => some (0, 1000)
  | .returned _ => ()

def idle (G : Plant) (s : World) : Config (sig G) := { core := { shared := s, gates := gates G } }

theorem idle_start {G : Plant} {init : World → Prop} {s : World} (h : init s) : (admission G init).start (idle G s) :=
  ⟨h, rfl, rfl, fun _ => rfl⟩

def callBy {G : Plant} (t : Thread) (i : Invocation) (answers : (q : Ask) → q.Ans) (steps : ℕ) :
    List (Thread × Move (sig G) Invocation) :=
  (t, .call i) :: List.replicate steps (t, .go answers)

def toolRun (alreadyActive : Bool) (steps : ℕ) : List (Thread × Move (sig tightPlant) Invocation) :=
  callBy 0 { call := .register 0 7 } fullNode 6 ++
    callBy 0 { call := .beginToolAdmission 0 { session := 7, amountMib := 1, timeout := 1000, alreadyActive } } fullNode
    steps

def runOf {G : Plant} (s : World) (moves : List (Thread × Move (sig G) Invocation)) :
    Config (sig G) × List ((Thread × Move (sig G) Invocation) × Event (sig G) Invocation) :=
  trace (Config.next (Invocation.code G)) (idle G s) moves

theorem run_runOf {G : Plant} (init : World → Prop) (s : World) (moves : List (Thread × Move (sig G) Invocation)) :
    Run (admission G init) (idle G s) (runOf s moves).2 (runOf s moves).1 :=
  run_trace _ _ _ _

def reliefDepth {G : Plant} : Event (sig G) Invocation → Option ℕ
  | .asked (.pressureRelief _ _) n => some n
  | _ => none

theorem reliefDepth_eq {G : Plant} {e : Event (sig G) Invocation} {n : ℕ} (h : reliefDepth e = some n) :
    ∃ c entry, e = .asked (.pressureRelief c entry) n := by
  unfold reliefDepth at h
  split at h
  · cases h
    exact ⟨_, _, rfl⟩
  · cases h

theorem relief_owns_condition : ∃ (G : Plant) (σ₀ σ : Config (sig G))
    (ls : List ((Thread × Move (sig G) Invocation) × Event (sig G) Invocation)),
    (admission G (· = freshWorld)).start σ₀ ∧ Run (admission G (· = freshWorld)) σ₀ ls σ ∧
      ∃ l ∈ ls, ∃ q n, l.2 = .asked q n ∧ ¬ Ask.Released n q := by
  refine ⟨tightPlant, _, _, _, idle_start rfl, run_runOf _ freshWorld (toolRun false 45), ?_⟩
  have hrelief : ((runOf freshWorld (toolRun false 45)).2.any fun l => reliefDepth l.2 = some 1) = true := by
    decide +kernel
  obtain ⟨l, hl, hdepth⟩ := List.any_eq_true.mp hrelief
  obtain ⟨c, entry, hq⟩ := reliefDepth_eq (of_decide_eq_true hdepth)
  refine ⟨l, hl, _, 1, hq, ?_⟩
  intro h
  cases h

instance (a : AcquireArgs) (conf : Conf) : Decidable (a.samplesFirst conf) :=
  inferInstanceAs (Decidable (if conf.osManagedLifecycle ∧ a.waitClass = .create then
    a.request.amount = 0 ∧ a.request.total = 0
  else if a.request.amount = 0 ∧ a.request.total = 0 ∧ a.waitClass = .toolAdmission then False
  else a.observations = none ∧ conf.residentCapacityAccounting = false))

def blocksFirst? (G : Plant) (call : Call) : Decidable (call.blocksFirst G) :=
  match call with
  | .acquire c a => inferInstanceAs (Decidable (a.samplesFirst (G.coord c)))
  | .acquireCapacity c session amountMib timeout =>
    inferInstanceAs (Decidable ((capacityArgs session amountMib timeout).samplesFirst (G.coord c)))
  | .beginToolAdmission c x => inferInstanceAs (Decidable ((x.amountMib ≠ 0 ∨ x.totalMib.getD 0 ≠ 0) ∧
      (G.coord c).residentCapacityAccounting = false))
  | .materialize c session amountMib timeout =>
    inferInstanceAs (Decidable ((lifecycleArgs session amountMib timeout .create).samplesFirst (G.coord c)))
  | .restore c session amountMib timeout =>
    inferInstanceAs (Decidable ((lifecycleArgs session amountMib timeout .restore).samplesFirst (G.coord c)))
  | .place _ => isTrue trivial
  | .release .. => isFalse id
  | .releaseCapacity .. => isFalse id
  | .unregister .. => isFalse id
  | .register .. => isFalse id
  | .setBlocked .. => isFalse id
  | .evictOne .. => isFalse id
  | .reclaim .. => isFalse id
  | .releasePlacement .. => isFalse id

instance (G : Plant) (call : Call) : Decidable (call.blocksFirst G) := blocksFirst? G call

instance (G : Plant) : DecidablePred (EntersFree G)
  | (_, .silent) => isTrue trivial
  | (_, .called i) => inferInstanceAs (Decidable (i.call.blocksFirst G → i.depth = 0))
  | (_, .asked q _) => inferInstanceAs (Decidable (Ask.entry q = 0))
  | (_, .acted _ _) => isTrue trivial

theorem condition_released_outside_active :
    ((runOf freshWorld (toolRun true 39)).2.any fun l => reliefDepth l.2 = some 0) = true ∧
      ∀ l ∈ (runOf freshWorld (toolRun true 39)).2, ∀ q n, l.2 = .asked q n → Ask.Released n q := by
  refine ⟨by decide +kernel, ?_⟩
  apply condition_released_outside tightPlant (· = freshWorld) (idle_start rfl)
  exact (run_runOf _ freshWorld (toolRun true 39)).restrict_labels (by decide +kernel)

end Nested

end ClawBox.Policy
