import ClawBox.Policy.Calls

namespace ClawBox.Policy

open Admission Monitor Monitor.Spec

def Ask.Fine (n : ℕ) : Ask → Prop
  | physical _ => n = 0
  | globalMemory => n = 0
  | pendingDemand => n = 0
  | hostPhysical _ => n = 0
  | eventWait _ => n = 0
  | conditionWait => n = 0
  | pressureRelief _ entry => n = entry
  | checkpoint _ _ entry => n = entry
  | returned depth => n = depth
  | _ => True

inductive Benign (t : Thread) : Act → Prop
  | enqueue (c : CoordId) (r : AdmissionRequest) : Benign t (.enqueue t c r)
  | abandon (c : CoordId) (k : Ticket) : k.thread = t → Benign t (.abandon c k)
  | setBlockers (c : CoordId) (k : Ticket) (reasons : List Reason) : k.thread = t → Benign t (.setBlockers c k reasons)
  | clearEvent (c : CoordId) (k : Ticket) (polls : Bool) : k.thread = t → Benign t (.clearEvent c k polls)
  | wakeUp (c : CoordId) (k : Ticket) : k.thread = t → Benign t (.wakeUp c k)
  | startReclaim (c : CoordId) : Benign t (.startReclaim c)
  | claimVictim (c : CoordId) (resident : List Session) (exclude : Option Session) :
      Benign t (.claimVictim c resident exclude)
  | releaseVictim (c : CoordId) (session : Session) (skipped : Bool) : Benign t (.releaseVictim c session skipped)
  | markSevere (now : ℤ) : Benign t (.markSevere now)
  | clearCongested : Benign t .clearCongested

variable {G : Plant}

def Asks (T : Spec (sig G)) : Prop := ∀ q n, Ask.Fine n q → T.AskMay q → T.AskOk q n

inductive Sampling : Ask → Prop
  | physical (c : CoordId) : Sampling (.physical c)
  | globalMemory : Sampling .globalMemory
  | pendingDemand : Sampling .pendingDemand
  | hostPhysical (c : CoordId) : Sampling (.hostPhysical c)

def SamplesAt (T : Spec (sig G)) (n : ℕ) : Prop := ∀ q, Sampling q → T.AskMay q → T.AskOk q n

theorem Asks.samples {T : Spec (sig G)} (h : Asks T) : SamplesAt T 0 := by
  intro q hq
  apply h q 0
  cases hq <;> rfl

structure Discipline (T : Spec (sig G)) (t : Thread) (P : World → Prop) : Prop where
  stable : T.Stable t P
  ask : Asks T
  act : ∀ a s, Benign t a → T.Inv s → P s → T.ActOk t a s ∧ P ((a.step G).run s).2

def Steady (T : Spec (sig G)) (t : Thread) (n : ℕ) (P : World → Prop) {α : Type} (x : M G α) : Prop :=
  T.Triple t n P x (fun _ => P)

variable {T : Spec (sig G)} {t : Thread} {n : ℕ} {P : World → Prop} {α β : Type}

theorem Steady.pure (a : α) : Steady T t n P (pure a : M G α) := Triple.pure a fun _ _ h => h

theorem Steady.result (r : Except Error α) : Steady T t n P (Code.result (S := sig G) r) :=
  Triple.result r fun _ _ h => h

theorem Steady.throw (e : Error) : Steady T t n P (throw e : M G α) := Triple.throw e fun _ _ h => h

theorem Steady.bind {x : M G α} {k : α → M G β} (hx : Steady T t n P x) (hk : ∀ a, Steady T t n P (k a)) :
    Steady T t n P (x >>= k) := by
  apply Triple.bind (R := fun _ => P) _ hk
  apply hx.post
  intro r s _ h
  cases r with
  | ok a => exact h
  | error e => exact h

theorem Steady.getState : Steady T t n P (getState : M G World) := Triple.peek fun _ _ _ _ h => h

theorem Steady.attempt {x : M G α} (hx : Steady T t n P x) : Steady T t n P (Code.attempt (S := sig G) x) :=
  Triple.attempt hx fun _ _ _ h => h

theorem Steady.tryFinally {x : M G α} {fin : M G Unit} (hx : Steady T t n P x) (hf : Steady T t n P fin) :
    Steady T t n P (Code.tryFinally (S := sig G) x fin) := by
  apply Steady.bind hx.attempt
  intro r
  apply Steady.bind hf
  intro _
  exact Steady.result r

theorem Steady.forever {body : β → M G (β ⊕ α)} {b : β} (h : ∀ b, Steady T t n P (body b)) :
    Steady T t n P (Code.forever (S := sig G) body b) := by
  refine Triple.forever (S := sig G) (I := fun _ => P) (fun _ _ h => h) ?_
  intro b
  apply (h b).post
  intro r s _ hs
  cases r with
  | error e => exact hs
  | ok x =>
    cases x with
    | inl b => exact hs
    | inr g => exact hs

theorem Steady.ite {p : Prop} [Decidable p] {x y : M G α} (hx : p → Steady T t n P x) (hy : ¬ p → Steady T t n P y) :
    Steady T t n P (if p then x else y) := by
  split_ifs with h
  · exact hx h
  · exact hy h

theorem Steady.ensure (p : Prop) [Decidable p] (e : Error) : Steady T t n P (ensure p e : M G Unit) :=
  Steady.ite (fun _ => Steady.pure ()) (fun _ => Steady.throw e)

theorem Steady.down (g : Gate) : Steady T t n P (Code.down (S := sig G) g) := Triple.down fun _ _ _ h => h

theorem Steady.up (g : Gate) : Steady T t n P (Code.up (S := sig G) g) := Triple.up fun _ _ h => h

theorem Steady.query (hA : Asks T) (q : Ask) (h : Ask.Fine n q) : Steady T t n P (query q : M G q.Ans) :=
  Triple.ask (hA q n h) fun _ _ _ _ h => h

theorem Steady.monotonic (hA : Asks T) : Steady T t n P (monotonic : M G ℤ) := Steady.query hA .monotonic trivial

theorem Steady.sampled {x : M G (Option α)} (hx : Steady T t n P x) : Steady T t n P (sampled x) := by
  apply Steady.bind hx
  intro a
  cases a with
  | none => exact Steady.throw _
  | some a => exact Steady.pure a

variable (hD : Discipline T t P)

include hD

theorem Steady.perform {a : Act} (ha : Benign t a) : Steady T t (n + 1) P (perform a : M G a.Out) := by
  apply Steady.bind
  · exact Triple.act fun s hI hP => hD.act a s ha hI hP
  · intro r
    exact Steady.result r

theorem Steady.withCondition {x : M G α} (hx : Steady T t (n + 1) P x) : Steady T t n P (withCondition x) :=
  Triple.locked hD.stable hx

theorem Steady.unlocked {w : Window} {x : M G α} (hx : Steady T t 0 P x) :
    Steady T t (n + 1) P (Code.unlocked (S := sig G) w x) :=
  Triple.unlocked hx fun _ => hD.stable

theorem Steady.released {w : Window} {x : M G α} (hx : Steady T t n P x) :
    Steady T t (n + 1) P (Code.released (S := sig G) w x) :=
  Triple.released hx fun _ => hD.stable

omit hD in
theorem physicalSample_steady (hS : SamplesAt T n) (c : CoordId) : Steady T t n P (physicalSample c : M G (ℤ × ℤ)) :=
  Steady.sampled (Triple.ask (hS _ (.physical c)) fun _ _ _ _ h => h)

omit hD in
theorem globalSample_steady (hS : SamplesAt T n) : Steady T t n P (globalSample : M G (ℤ × ℤ)) :=
  Steady.sampled (Triple.ask (hS _ .globalMemory) fun _ _ _ _ h => h)

theorem physicalSampleLocked_steady (c : CoordId) (w : Window) :
    Steady T t (n + 1) P (physicalSampleLocked c w : M G (ℤ × ℤ)) :=
  Steady.unlocked hD (physicalSample_steady hD.ask.samples c)

theorem globalSampleLocked_steady (w : Window) : Steady T t (n + 1) P (globalSampleLocked w : M G (ℤ × ℤ)) :=
  Steady.unlocked hD (globalSample_steady hD.ask.samples)

omit hD in
theorem admissionObservations_steady (c : CoordId)
    (hn : (G.coord c).residentCapacityAccounting = false → SamplesAt T n) :
    Steady T t n P (admissionObservations c : M G _) := by
  apply Steady.ite
  · intro _
    exact Steady.pure _
  · intro h
    have hS := hn (by simpa using h)
    apply Steady.bind (physicalSample_steady hS c)
    intro physical
    apply Steady.bind (globalSample_steady hS)
    intro globalMemory
    exact Steady.pure _

theorem pendingObservation_steady (hS : SamplesAt T n) : Steady T t n P (pendingObservation : M G Observed) := by
  apply Steady.bind (Steady.withCondition hD (Steady.pure ()))
  intro _
  apply Steady.tryFinally
  · exact Steady.sampled (Triple.ask (hS _ .pendingDemand) fun _ _ _ _ h => h)
  · apply Steady.bind (Steady.query hD.ask .leads trivial)
    intro leads
    apply Steady.ite
    · intro _
      exact Steady.withCondition hD (Steady.pure ())
    · intro _
      exact Steady.pure _

theorem admissionSnapshot_steady (c : CoordId) (amount total : ℕ) (existingProgress : Bool)
    (hn : (G.coord c).residentCapacityAccounting = false → SamplesAt T n) :
    Steady T t n P (admissionSnapshot c amount total existingProgress : M G Observations) := by
  by_cases hr : (G.coord c).residentCapacityAccounting = true
  · -- nothing was sampled, so the two options are empty
    unfold admissionSnapshot admissionObservations
    rw [if_pos hr]
    exact Steady.pure _
  · have hS := hn (by simpa using hr)
    apply Steady.bind (admissionObservations_steady c hn)
    rintro ⟨physical, globalMemory⟩
    split
    · apply Steady.bind Steady.getState
      intro s
      apply Steady.ite
      · intro _
        apply Steady.bind (pendingObservation_steady hD hS)
        intro pending
        apply Steady.bind (admissionObservations_steady c hn)
        intro again
        exact Steady.pure _
      · intro _
        exact Steady.pure _
    · exact Steady.pure _

omit hD in
theorem healthCheck_steady (hA : Asks T) : Steady T t n P (healthCheck : M G Unit) := by
  apply Steady.bind (Steady.query hA .check trivial)
  intro ok
  exact Steady.ensure _ _

omit hD in
theorem updateCongestion_steady (hA : Asks T) (hsevere : ∀ now, Steady T t n P (perform (.markSevere now) : M G Unit))
    (hclear : Steady T t n P (perform .clearCongested : M G Unit)) (committed : ℤ) (severe : Bool) :
    Steady T t n P (updateCongestion committed severe : M G Unit) := by
  apply Steady.ite
  · intro _
    apply Steady.bind (Steady.monotonic hA)
    intro now
    exact hsevere now
  · intro _
    apply Steady.bind Steady.getState
    intro s
    apply Steady.ite
    · intro _
      apply Steady.ite
      · intro _
        exact hclear
      · intro _
        split
        · apply Steady.bind (Steady.monotonic hA)
          intro now
          exact Steady.ite (fun _ => hclear) (fun _ => Steady.pure _)
        · exact Steady.pure _
    · intro _
      exact Steady.pure _

theorem demandReasons_steady (c : CoordId) (q : Check) (f : Figures) :
    Steady T t (n + 1) P (demandReasons c q f : M G (List Reason)) := by
  apply Steady.bind (healthCheck_steady hD.ask)
  intro _
  apply Steady.bind Steady.getState
  intro s
  apply Steady.bind (Steady.sampled (Steady.query hD.ask (.severe f.globalUsed) trivial))
  intro severe
  apply Steady.bind (updateCongestion_steady hD.ask (fun now => Steady.perform hD (.markSevere now))
    (Steady.perform hD .clearCongested) _ severe)
  intro _
  apply Steady.bind Steady.getState
  intro s'
  exact Steady.pure _

theorem finalReasons_steady (c : CoordId) (q : Check) (f : Figures) :
    Steady T t (n + 1) P (finalReasons c q f : M G _) := by
  apply Steady.bind (demandReasons_steady hD c q f)
  intro reasons
  exact Steady.pure _

theorem pendingBreakdown_steady (w : Window) : Steady T t (n + 1) P (pendingBreakdown w : M G Observed) :=
  Steady.unlocked hD (Steady.sampled (Steady.query hD.ask .pendingDemand rfl))

omit hD in
theorem reconcile_steady (c : CoordId) (m : Observed) : Steady T t n P (reconcile c m : M G (ℤ × ℤ)) := by
  apply Steady.bind Steady.getState
  intro s
  split
  · exact Steady.pure _
  · exact Steady.throw _

theorem exactFigures_steady (c : CoordId) (q : Check) (f : Figures) :
    Steady T t (n + 1) P (exactFigures c q f : M G Figures) := by
  unfold exactFigures
  split
  · apply Steady.bind (reconcile_steady c _)
    intro pending
    apply Steady.bind Steady.getState
    intro s
    exact Steady.pure _
  · apply Steady.bind (pendingBreakdown_steady hD _)
    intro m
    apply Steady.bind (reconcile_steady c m)
    intro pending
    apply Steady.bind (physicalSampleLocked_steady hD c _)
    intro physical
    apply Steady.bind Steady.getState
    intro s
    apply Steady.bind (globalSampleLocked_steady hD _)
    intro globalMemory
    apply Steady.bind Steady.getState
    intro s'
    exact Steady.pure _

theorem chargedReasons_steady (c : CoordId) (q : Check) (f : Figures) :
    Steady T t (n + 1) P (chargedReasons c q f : M G _) := by
  apply Steady.bind Steady.getState
  intro s
  apply Steady.ite
  · intro _
    exact finalReasons_steady hD c q _
  · intro _
    apply Steady.bind (exactFigures_steady hD c q f)
    intro exact'
    exact finalReasons_steady hD c q exact'

omit hD in
theorem budgetBlocker_steady (hA : Asks T) (c : CoordId) (q : Check) (f : Figures) :
    Steady T t n P (budgetBlocker c q f : M G (Option Reason)) := by
  apply Steady.bind (healthCheck_steady hA)
  intro _
  apply Steady.bind Steady.getState
  intro s
  exact Steady.pure _

theorem blockedReasons_steady (c : CoordId) (q : Check) (f : Figures) :
    Steady T t (n + 1) P (blockedReasons c q f : M G _) := by
  apply Steady.bind (budgetBlocker_steady hD.ask c q f)
  intro blocker
  cases blocker with
  | none => exact chargedReasons_steady hD c q f
  | some reason => exact Steady.pure _

theorem physicalFor_steady (c : CoordId) (q : Check) : Steady T t (n + 1) P (physicalFor c q : M G (ℤ × ℤ)) := by
  unfold physicalFor
  split
  · exact Steady.pure _
  · exact physicalSampleLocked_steady hD c _

theorem globalFor_steady (c : CoordId) (q : Check) : Steady T t (n + 1) P (globalFor c q : M G (ℤ × ℤ)) := by
  unfold globalFor
  split
  · exact Steady.pure _
  · exact globalSampleLocked_steady hD _

theorem baseFigures_steady (c : CoordId) (q : Check) : Steady T t (n + 1) P (baseFigures c q : M G Figures) := by
  apply Steady.bind (physicalFor_steady hD c q)
  intro physical
  apply Steady.bind Steady.getState
  intro s
  apply Steady.bind (globalFor_steady hD c q)
  intro globalMemory
  exact Steady.pure _

omit hD in
theorem residentReasons_steady (c : CoordId) (q : Check) : Steady T t n P (residentReasons c q : M G _) := by
  apply Steady.bind Steady.getState
  intro s
  exact Steady.pure _

theorem pressureReasons_steady (c : CoordId) (q : Check) : Steady T t (n + 1) P (pressureReasons c q : M G _) := by
  apply Steady.ite
  · intro _
    exact residentReasons_steady c q
  · intro _
    apply Steady.bind (baseFigures_steady hD c q)
    intro f
    apply Steady.ite
    · intro _
      exact blockedReasons_steady hD c q f
    · intro _
      exact chargedReasons_steady hD c q f

theorem headroomWalk_steady (c : CoordId) (session : Session) (l : List (Session × SessionState)) :
    Steady T t n P (headroomWalk c session l : M G Bool) := by
  induction l with
  | nil => exact Steady.pure _
  | cons e l ih =>
    obtain ⟨other, x⟩ := e
    apply Steady.ite
    · intro _
      exact ih
    · intro _
      apply Steady.bind (Steady.query hD.ask (.resident c other) trivial)
      intro resident
      apply Steady.ite
      · intro _
        exact ih
      · intro _
        apply Steady.ite
        · intro _
          exact Steady.pure _
        · intro _
          apply Steady.bind (Steady.query hD.ask (.runtimeResident c other) trivial)
          intro runtime
          exact Steady.ite (fun _ => Steady.pure _) (fun _ => ih)

theorem startupExtra_steady (c : CoordId) (session : Session) : Steady T t n P (startupExtra c session : M G ℕ) := by
  apply Steady.bind
  · apply Steady.bind Steady.getState
    intro s
    exact headroomWalk_steady hD c session _
  · intro needed
    exact Steady.ite (fun _ => Steady.pure _) (fun _ => Steady.pure _)

theorem creationFits_steady (c : CoordId) (oldest : AdmissionRequest) (o : Observations) :
    Steady T t (n + 1) P (creationFits c oldest o : M G Bool) := by
  apply Steady.bind (startupExtra_steady hD c _)
  intro extra
  apply Steady.bind Steady.getState
  intro s
  apply Steady.ite
  · intro _
    exact Steady.pure _
  · intro _
    apply Steady.bind (pressureReasons_steady hD c _)
    intro r
    exact Steady.pure _

theorem headWalk_steady (c : CoordId) (o : Observations) (snapshot l : List Ticket) (first : Option Ticket) :
    Steady T t (n + 1) P (headWalk c o snapshot l first : M G _) := by
  induction l generalizing first with
  | nil => exact Steady.pure _
  | cons k l ih =>
    apply Steady.bind Steady.getState
    intro s
    split
    · exact Steady.pure _
    · apply Steady.ite
      · intro _
        exact ih first
      · intro _
        apply Steady.ite
        · intro _
          split
          · exact Steady.pure _
          · apply Steady.ite
            · intro _
              apply Steady.bind (creationFits_steady hD c _ o)
              intro fits
              apply Steady.bind Steady.getState
              intro s'
              apply Steady.ite
              · intro _
                exact Steady.pure _
              · intro _
                exact Steady.ite (fun _ => Steady.pure _) (fun _ => Steady.pure _)
            · intro _
              exact Steady.pure _
        · intro _
          exact ih _

theorem admissionHead_steady (c : CoordId) (o : Observations) :
    Steady T t (n + 1) P (admissionHead c o : M G (Option Ticket)) := by
  apply Steady.forever
  intro _
  apply Steady.bind Steady.getState
  intro s
  apply Steady.bind (headWalk_steady hD c o _ _ none)
  intro r
  cases r with
  | none => exact Steady.pure _
  | some head => exact Steady.pure _

theorem residentSessions_steady (c : CoordId) (l : List (Session × SessionState)) :
    Steady T t n P (residentSessions c l : M G (List Session)) := by
  induction l with
  | nil => exact Steady.pure _
  | cons e l ih =>
    obtain ⟨session, x⟩ := e
    apply Steady.bind (Steady.query hD.ask (.resident c session) trivial)
    intro present
    apply Steady.bind ih
    intro others
    exact Steady.pure _

theorem claimVictimFor_steady (c : CoordId) (exclude : Option Session) :
    Steady T t n P (claimVictimFor c exclude : M G (Option Session)) := by
  apply Steady.withCondition hD
  apply Steady.bind Steady.getState
  intro s
  apply Steady.bind (residentSessions_steady hD c _)
  intro resident
  exact Steady.perform hD (.claimVictim c resident exclude)

theorem countPause_steady (x : CheckpointOutcome) : Steady T t n P (countPause x : M G Unit) := by
  cases x with
  | paused => exact Steady.withCondition hD (Steady.pure ())
  | nothing => exact Steady.withCondition hD (Steady.pure ())
  | noCapacity => exact Steady.pure _
  | failed => exact Steady.pure _

theorem evictOneForWatermark_steady (c : CoordId) (exclude : Option Session) :
    Steady T t n P (evictOneForWatermark c n exclude : M G Bool) := by
  apply Steady.bind (claimVictimFor_steady hD c exclude)
  intro victim
  cases victim with
  | none => exact Steady.pure _
  | some v =>
    apply Steady.bind (Steady.query hD.ask (.checkpoint c v n) rfl)
    intro outcome
    apply Steady.bind (countPause_steady hD outcome)
    intro _
    apply Steady.bind (Steady.withCondition hD (Steady.perform hD (.releaseVictim c v _)))
    intro _
    apply Steady.bind (Steady.ensure _ _)
    intro _
    exact Steady.pure _

theorem relievePressure_steady (c : CoordId) (exclude : Option Session) :
    Steady T t n P (relievePressure c n exclude : M G Bool) := by
  apply Steady.ite
  · intro _
    apply Steady.bind (Steady.query hD.ask (.pressureRelief c n) rfl)
    intro r
    cases r with
    | none => exact Steady.throw _
    | some relieved => exact Steady.pure _
  · intro _
    exact evictOneForWatermark_steady hD c exclude

theorem decisionCheck_steady (c : CoordId) (a : AcquireArgs) (batch : Option (ℕ × ℕ)) (o : Observations) :
    Steady T t (n + 1) P (decisionCheck c a batch o : M G _) := by
  have hextra : Steady T t (n + 1) P (decisionExtra c a : M G ℕ) :=
    Steady.ite (fun _ => startupExtra_steady hD c _) (fun _ => Steady.pure _)
  apply Steady.bind hextra
  intro extra
  apply Steady.bind hextra
  intro extraTotal
  exact pressureReasons_steady hD c _

omit hD in
theorem blockedSince_steady (hA : Asks T) (c : CoordId) (a : AcquireArgs) (k : Ticket) (x : Round) (b : Attempt) :
    Steady T t n P (blockedSince c a k x b : M G (Option ℤ)) := by
  apply Steady.bind Steady.getState
  intro s
  apply Steady.ite
  · intro _
    apply Steady.bind (Steady.monotonic hA)
    intro now
    apply Steady.bind (Steady.ensure _ _)
    intro _
    exact Steady.pure _
  · intro _
    exact Steady.pure _

theorem requestReclaim_steady (c : CoordId) (x : Round) : Steady T t (n + 1) P (requestReclaim c x : M G Unit) := by
  apply Steady.bind Steady.getState
  intro s
  apply Steady.ite
  · intro _
    apply Steady.bind (Steady.monotonic hD.ask)
    intro now
    exact Steady.ite (fun _ => Steady.perform hD (.startReclaim c)) (fun _ => Steady.pure _)
  · intro _
    exact Steady.pure _

theorem relieved_steady (c : CoordId) (a : AcquireArgs) (x : Round) :
    Steady T t (n + 1) P (relieved c a n x : M G Bool) :=
  Steady.ite (fun _ => Steady.released hD (relievePressure_steady hD c _)) (fun _ => Steady.pure _)

omit hD in
theorem remaining_steady (hA : Asks T) (a : AcquireArgs) (deadline : Option ℤ) :
    Steady T t n P (remaining a deadline : M G (Option ℤ)) := by
  cases deadline with
  | none => exact Steady.pure _
  | some d =>
    apply Steady.bind (Steady.monotonic hA)
    intro now
    apply Steady.bind (Steady.ensure _ _)
    intro _
    exact Steady.pure _

theorem sleep_steady (c : CoordId) (a : AcquireArgs) (k : Ticket) (seconds : Option ℤ) :
    Steady T t (n + 1) P (Code.unlocked (S := sig G) ({ site := .sleeping c k } : Window) (do
      query (.eventWait seconds)
      admissionSnapshot c a.request.amount a.request.total (a.request.waitClass = .toolAdmission))) := by
  apply Steady.unlocked hD
  apply Steady.bind (Steady.query hD.ask (.eventWait seconds) rfl)
  intro _
  exact admissionSnapshot_steady hD c _ _ _ (fun _ => hD.ask.samples)

theorem awaitTurn_steady (c : CoordId) (a : AcquireArgs) {k : Ticket} (hk : k.thread = t) (deadline : Option ℤ)
    (x : Round) :
    Steady T t (n + 1) P (awaitTurn c a k deadline x : M G Observations) := by
  apply Steady.bind (remaining_steady hD.ask a deadline)
  intro left
  apply Steady.bind (Steady.perform hD (.clearEvent c k _ hk))
  intro _
  apply Steady.bind (sleep_steady hD c a k _)
  intro o
  apply Steady.bind (Steady.perform hD (.wakeUp c k hk))
  intro _
  exact Steady.pure _

theorem nextObservations_steady (c : CoordId) (a : AcquireArgs) {k : Ticket} (hk : k.thread = t) (deadline : Option ℤ)
    (x : Round) : Steady T t (n + 1) P (nextObservations c a k deadline n x : M G Observations) := by
  apply Steady.bind (relieved_steady hD c a x)
  intro r
  exact Steady.ite (fun _ => Steady.pure _) (fun _ => awaitTurn_steady hD c a hk deadline x)

omit hD in
theorem Steady.then {x : M G α} {k : α → M G β} {Q : Except Error β → World → Prop} (hx : Steady T t n P x)
    (herr : ∀ e s, P s → Q (.error e) s) (hk : ∀ a, T.Triple t n P (k a) Q) : T.Triple t n P (x >>= k) Q := by
  apply Triple.bind (R := fun _ => P) _ hk
  apply hx.post
  intro r s _ h
  cases r with
  | ok a => exact h
  | error e => exact herr e s h

def Cleared (P : World → Prop) (K : Figures → World → Prop) (r : Except Error (List Reason × Figures)) (s : World) :
    Prop :=
  P s ∧ ∀ f, r = .ok ([], f) → K f s

def Admitted (P : World → Prop) (K : Figures → World → Prop) (r : Except Error (Round × Figures)) (s : World) : Prop :=
  P s ∧ ∀ x f, r = .ok (x, f) → x.canAttempt = true → x.reasons = [] → K f s

theorem considerTicket_triple (c : CoordId) (a : AcquireArgs) (k : Ticket) (b : Attempt)
    {B : Option (ℕ × ℕ) → Prop} {K : Figures → World → Prop} (hnone : B none)
    (hbatch : ∀ head r s, T.Inv s → P s → feasibleProgressPrefix c s k head = .ok r → B r)
    (hdecide : ∀ batch, B batch → T.Triple t (n + 1) P (decisionCheck c a batch b.observations) (Cleared P K)) :
    T.Triple t (n + 1) P (considerTicket c a k b) (Admitted P K) := by
  have herr : ∀ (e : Error) s, P s → Admitted P K (.error e) s := by
    intro e s h
    exact ⟨h, fun x f hr => by cases hr⟩
  apply Steady.then Steady.getState herr
  intro s₀
  apply Steady.then (Steady.ensure _ _) herr
  intro _
  apply Steady.then (admissionHead_steady hD c b.observations) herr
  intro head
  apply Steady.then Steady.getState herr
  intro s₁
  -- the batch was computed from the state in which the check begins
  apply Triple.bind (R := fun batch s => P s ∧ B batch)
  · apply Triple.bind (R := fun s' s => s' = s ∧ P s)
    · exact Triple.read fun s _ h => ⟨rfl, h⟩
    · intro s'
      split_ifs
      · exact Triple.pure _ fun s _ h => ⟨h.2, hnone⟩
      · apply Triple.result
        rintro s hI ⟨rfl, h⟩
        cases hr : feasibleProgressPrefix c s' k head with
        | ok r => exact ⟨h, hbatch head r s' hI h hr⟩
        | error e => exact herr e s' h
  · intro batch
    apply Triple.fact
    intro hB
    have hcheck : ∀ canAttempt, T.Triple t (n + 1) P (decisionFor c a canAttempt batch b.observations)
        (fun r s => P s ∧ ∀ f, r = .ok ([], f) → canAttempt = true → K f s) := by
      intro canAttempt
      cases canAttempt with
      | false =>
        apply Triple.pure
        intro s _ h
        exact ⟨h, fun f _ hf => by cases hf⟩
      | true =>
        apply (hdecide batch hB).post
        exact fun r s _ h => ⟨h.1, fun f hr _ => h.2 f hr⟩
    apply Triple.bind (R := fun r s => P s ∧ ∀ f, r = ([], f) → (decide (head = some k) || batch.isSome) = true → K f s)
    · apply (hcheck _).post
      intro r s _ h
      cases r with
      | ok r => exact ⟨h.1, fun f hr hc => h.2 f (by rw [hr]) hc⟩
      | error e => exact herr e s h.1
    · rintro ⟨reasons, f⟩
      apply Triple.bind (R := fun _ s => P s ∧ ∀ f', (reasons, f) = ([], f') →
        (decide (head = some k) || batch.isSome) = true → K f' s)
      · exact Triple.peek fun s _ _ _ h => h
      · intro s₂
        apply Triple.pure
        rintro s _ ⟨hP, hK⟩
        refine ⟨hP, ?_⟩
        rintro x f' hr hcan hempty
        simp only [Except.ok.injEq, Prod.mk.injEq] at hr
        obtain ⟨rfl, rfl⟩ := hr
        apply hK f _ hcan
        have hnil : reasons = [] := by
          simp only at hempty
          split_ifs at hempty <;> simp_all
        rw [hnil]

theorem attemptRound_triple {c : CoordId} {a : AcquireArgs} {k : Ticket} (hk : k.thread = t) (deadline : Option ℤ)
    (b : Attempt) {K : Figures → World → Prop}
    (h : T.Triple t (n + 1) P (considerTicket c a k b) (Admitted P K)) :
    T.Triple t (n + 1) P (attemptRound c a k deadline n b) (fun r s => P s ∧ ∀ f, r = .ok (.inr f) → K f s) := by
  apply Triple.bind (R := fun r s => P s ∧ (r.1.canAttempt = true → r.1.reasons = [] → K r.2 s))
  · apply h.post
    intro r s _ hr
    cases r with
    | ok r => exact ⟨hr.1, hr.2 r.1 r.2 rfl⟩
    | error e => exact ⟨hr.1, fun f hf => by cases hf⟩
  · rintro ⟨x, f⟩
    dsimp only
    split_ifs with hx
    · apply Triple.pure
      rintro s _ ⟨hP, hK⟩
      refine ⟨hP, ?_⟩
      rintro f' ⟨⟩
      exact hK hx.1 hx.2
    · -- a round that holds back never ends the loop
      have hloop : T.Triple t (n + 1) P (holdBack c a k deadline n b x) (fun r s => P s ∧ ∀ f, r ≠ .ok (.inr f)) := by
        apply Steady.then (Steady.perform hD (.setBlockers c k _ hk)) (fun e s h => ⟨h, by simp⟩)
        intro _
        apply Steady.then (blockedSince_steady hD.ask c a k x b) (fun e s h => ⟨h, by simp⟩)
        intro since
        apply Steady.then (requestReclaim_steady hD c x) (fun e s h => ⟨h, by simp⟩)
        intro _
        apply Steady.then (nextObservations_steady hD c a hk deadline x) (fun e s h => ⟨h, by simp⟩)
        intro o
        exact Triple.pure _ fun s _ h => ⟨h, by simp⟩
      apply hloop.conseq
      · exact fun s _ h => h.1
      · exact fun r s _ h => ⟨h.1, fun f hr => absurd hr (h.2 f)⟩

omit hD

def Landed (Q : Except Error Unit → World → Prop) (E : World → Prop) (r : Except Error Unit) (s : World) : Prop :=
  match r with
  | .ok () => Q (.ok ()) s
  | .error _ => E s

/-- What `acquire` needs of the facts that a proof carries through it: `P₀` before, `Pk` while the ticket is queued,
`K` when the check lets it commit, `E` after a failure, `Q` at the end. -/
structure Carries (T : Spec (sig G)) (t : Thread) (n : ℕ) (c : CoordId) (a : AcquireArgs) (P₀ : World → Prop)
    (Pk : Ticket → World → Prop) (K : Ticket → Figures → World → Prop) (E : Ticket → World → Prop)
    (Q : Except Error Unit → World → Prop) : Prop where
  before : Discipline T t P₀
  queued : ∀ k, k.thread = t → Discipline T t (Pk k)
  enqueue : ∀ s, T.Inv s → P₀ s → T.ActOk t (.enqueue t c a.request) s ∧
    Pk ⟨t, s.nextSerial⟩ ((Act.step G (.enqueue t c a.request)).run s).2
  consider : ∀ k b, k.thread = t → T.Triple t (n + 1) (Pk k) (considerTicket c a k b) (Admitted (Pk k) (K k))
  commit : ∀ k f reading s, k.thread = t → T.Inv s → Pk k s → K k f s →
    T.ActOk t (.commit c k a.request f reading) s ∧
      Landed Q (E k) ((Act.step G (.commit c k a.request f reading)).run s).1
        ((Act.step G (.commit c k a.request f reading)).run s).2
  failed : ∀ k s, Pk k s → E k s
  abandon : ∀ k e s, k.thread = t → T.Inv s → E k s → T.ActOk t (.abandon c k) s ∧
    Q (.error e) ((Act.step G (.abandon c k)).run s).2

theorem enqueue_run (c : CoordId) (r : AdmissionRequest) (s : World) :
    ((Act.step G (.enqueue t c r)).run s).1 = .ok ⟨t, s.nextSerial⟩ := by
  rfl

section Admit

variable {c : CoordId} {a : AcquireArgs} {P₀ : World → Prop} {Pk : Ticket → World → Prop}
  {K : Ticket → Figures → World → Prop} {E : Ticket → World → Prop} {Q : Except Error Unit → World → Prop}

theorem commitClaim_triple (hC : Carries T t n c a P₀ Pk K E Q) {k : Ticket} (hk : k.thread = t) (f : Figures) :
    T.Triple t (n + 1) (fun s => Pk k s ∧ K k f s) (commitClaim c a k f) (Landed Q (E k)) := by
  have hA := hC.before.ask
  have hreading : Steady T t (n + 1) (fun s => Pk k s ∧ K k f s) (claimReading c a : M G Reading) := by
    apply Steady.bind Steady.getState
    intro s
    exact Steady.ite (fun _ => Steady.query hA (.sampler a.session) trivial) (fun _ => Steady.pure _)
  apply Steady.then hreading (fun e s h => hC.failed k s h.1)
  intro reading
  apply Triple.bind (R := fun r s => Landed Q (E k) r s)
  · apply Triple.act
    rintro s hI ⟨hP, hK⟩
    exact hC.commit k f reading s hk hI hP hK
  · intro r
    exact Triple.result r fun s _ h => h

theorem admit_triple (hC : Carries T t n c a P₀ Pk K E Q) (deadline : Option ℤ) (o : Observations) :
    T.Triple t n P₀ (admitEntry c a deadline n t o) Q := by
  apply Triple.locked hC.before.stable
  apply Triple.bind (R := fun k s => k.thread = t ∧ Pk k s)
  · apply Triple.bind (R := fun r s => ∃ k, r = .ok k ∧ k.thread = t ∧ Pk k s)
    · apply Triple.act
      intro s hI hP
      obtain ⟨hok, hpost⟩ := hC.enqueue s hI hP
      exact ⟨hok, ⟨t, s.nextSerial⟩, enqueue_run (G := G) c a.request s, rfl, hpost⟩
    · intro r
      apply Triple.result
      rintro s _ ⟨k, rfl, hk, hP⟩
      exact ⟨hk, hP⟩
  · intro k
    refine Triple.pre (P := fun s => Pk k s ∧ k.thread = t) (Triple.fact ?_) (fun s _ h => ⟨h.2, h.1⟩)
    intro hk
    have hbody : T.Triple t (n + 1) (Pk k) (do
        let f ← Code.forever (S := sig G) (attemptRound c a k deadline n) ⟨o, none⟩
        commitClaim c a k f) (Landed Q (E k)) := by
      apply Triple.bind (R := fun f s => Pk k s ∧ K k f s)
      · refine Triple.forever (S := sig G) (I := fun _ => Pk k) (fun s _ h => h) ?_
        intro b
        apply (attemptRound_triple (hC.queued k hk) hk deadline b (hC.consider k b hk)).post
        rintro r s _ ⟨hP, hK⟩
        cases r with
        | error e => exact hC.failed k s hP
        | ok r =>
          cases r with
          | inl b => exact hP
          | inr f => exact ⟨hP, hK f rfl⟩
      · exact fun f => commitClaim_triple hC hk f
    apply Triple.bind (R := fun r s => Landed Q (E k) r s)
    · exact hbody.attempt fun r s _ h => h
    · intro outcome
      cases outcome with
      | ok u => exact Triple.pure _ fun s _ h => h
      | error e =>
        apply Triple.bind (R := fun _ s => Q (.error e) s)
        · apply Triple.bind (R := fun r s => r = .ok () ∧ Q (.error e) s)
          · apply Triple.act
            intro s hI hE
            obtain ⟨hok, hpost⟩ := hC.abandon k e s hk hI hE
            exact ⟨hok, rfl, hpost⟩
          · intro r
            apply Triple.result
            rintro s _ ⟨rfl, h⟩
            exact h
        · intro _
          exact Triple.throw e fun s _ h => h

theorem recordWait_steady {P : World → Prop} (hP : T.Stable t P) : Steady T t n P (recordWait : M G Unit) :=
  Triple.locked hP (Steady.pure ())

theorem acquireManaged_triple (hC : Carries T t n c a P₀ Pk K E Q) (started : ℤ)
    (hQ : ∀ r, T.Stable t (Q r)) (hP : ∀ e s, P₀ s → Q (.error e) s)
    (hn : a.observations = none → (G.coord c).residentCapacityAccounting = false → SamplesAt T n) :
    T.Triple t n P₀ (acquireManaged c a n t started) (fun r => Q (r.map fun _ => ())) := by
  have hobs : Steady T t n P₀ (observationsFor c a : M G Observations) := by
    unfold observationsFor
    split
    · exact Steady.pure _
    · rename_i h
      exact admissionSnapshot_steady hC.before c _ _ _ (hn h)
  refine Steady.then (Q := fun r => Q (r.map fun _ => ())) hobs hP ?_
  intro o
  apply Triple.bind (R := fun _ s => Q (.ok ()) s)
  · apply (admit_triple hC (a.timeout.map (started + ·)) o).post
    intro r s _ h
    cases r with
    | ok u => exact h
    | error e => exact h
  · intro _
    have hA := hC.before.ask
    apply Triple.bind (R := fun _ s => Q (.ok ()) s)
    · exact Triple.ask (fun h => hA .monotonic n trivial h) fun _ _ _ _ h => h
    · intro now
      apply Triple.bind (R := fun _ s => Q (.ok ()) s)
      · apply Triple.locked (hQ (.ok ()))
        exact Triple.pure _ fun s _ h => h
      · intro _
        exact Triple.pure _ fun s _ h => h

theorem acquireUnmanaged_steady {P : World → Prop}
    (hn : a.request.amount = 0 ∧ a.request.total = 0 → SamplesAt T n) :
    Steady T t n P (acquireUnmanaged c a : M G ℤ) := by
  unfold acquireUnmanaged
  by_cases h : a.request.amount = 0 ∧ a.request.total = 0
  · apply Steady.bind (Steady.ensure _ _)
    intro _
    apply Steady.bind (Steady.sampled (Triple.ask (hn h _ (.hostPhysical c)) fun _ _ _ _ h => h))
    intro sample
    apply Steady.bind (Steady.ensure _ _)
    intro _
    exact Steady.pure _
  · have hraise : (ensure (a.request.amount = 0 ∧ a.request.total = 0) .osManagedReservation : M G Unit) =
        throw .osManagedReservation := if_neg h
    rw [hraise]
    exact Steady.throw _

def AcquireArgs.samplesFirst (a : AcquireArgs) (conf : Conf) : Prop :=
  if conf.osManagedLifecycle ∧ a.waitClass = .create then a.request.amount = 0 ∧ a.request.total = 0
  else if a.request.amount = 0 ∧ a.request.total = 0 ∧ a.waitClass = .toolAdmission then False
  else a.observations = none ∧ conf.residentCapacityAccounting = false

def AcquireArgs.claims (a : AcquireArgs) (conf : Conf) : Prop :=
  ¬ (conf.osManagedLifecycle ∧ a.waitClass = .create) ∧
    ¬ (a.request.amount = 0 ∧ a.request.total = 0 ∧ a.waitClass = .toolAdmission)

theorem acquire_triple (hA : Asks T) (hP₀ : T.Stable t P₀) (hC : a.claims (G.coord c) → Carries T t n c a P₀ Pk K E Q)
    (hQ : ∀ r, T.Stable t (Q r)) (hP : ∀ e s, P₀ s → Q (.error e) s)
    (hidle : ¬ a.claims (G.coord c) → ∀ s, P₀ s → Q (.ok ()) s) (hn : a.samplesFirst (G.coord c) → SamplesAt T n) :
    T.Triple t n P₀ (acquire c a n t) (fun r => Q (r.map fun _ => ())) := by
  have hsteady : ∀ x : M G ℤ, ¬ a.claims (G.coord c) → Steady T t n P₀ x →
      T.Triple t n P₀ x (fun r => Q (r.map fun _ => ())) := by
    intro x hclaims hx
    apply hx.post
    intro r s _ h
    cases r with
    | ok v => exact hidle hclaims s h
    | error e => exact hP e s h
  refine Steady.then (Q := fun r => Q (r.map fun _ => ())) (Steady.monotonic hA) hP ?_
  intro started
  by_cases hos : (G.coord c).osManagedLifecycle = true ∧ a.waitClass = .create
  · rw [if_pos hos]
    apply hsteady _ (fun h => h.1 hos)
    apply acquireUnmanaged_steady
    intro h
    apply hn
    unfold AcquireArgs.samplesFirst
    rwa [if_pos hos]
  · rw [if_neg hos]
    by_cases hzero : a.request.amount = 0 ∧ a.request.total = 0 ∧ a.waitClass = .toolAdmission
    · rw [if_pos hzero]
      apply hsteady _ (fun h => h.2 hzero)
      apply Steady.bind (Steady.monotonic hA)
      intro now
      apply Steady.bind (recordWait_steady hP₀)
      intro _
      exact Steady.pure _
    · rw [if_neg hzero]
      apply acquireManaged_triple (hC ⟨hos, hzero⟩) started hQ hP
      intro hobs hres
      apply hn
      unfold AcquireArgs.samplesFirst
      rw [if_neg hos, if_neg hzero]
      exact ⟨hobs, hres⟩

end Admit

section Calls

include hD

theorem awaitEviction_steady (c : CoordId) (session : Session) :
    Steady T t (n + 1) P (awaitEviction c session : M G Unit) := by
  apply Steady.forever
  intro _
  apply Steady.bind Steady.getState
  intro s
  apply Steady.ite
  · intro _
    apply Steady.bind (Steady.unlocked hD (Steady.query hD.ask .conditionWait rfl))
    intro _
    exact Steady.pure _
  · intro _
    exact Steady.pure _

omit hD in
theorem knownSession_steady (c : CoordId) (session : Session) : Steady T t n P (knownSession c session : M G Unit) := by
  apply Steady.bind Steady.getState
  intro s
  exact Steady.ensure _ _

theorem markActive_steady {c : CoordId} {session : Session} {active : Bool}
    (hact : ∀ now, Steady T t n P (perform (.setActive c session active now) : M G Unit)) :
    Steady T t n P (markActive c session active : M G Unit) := by
  apply Steady.bind (Steady.monotonic hD.ask)
  intro now
  exact hact now

theorem setToolActive_steady {c : CoordId} {session : Session} {active : Bool}
    (hact : ∀ now, Steady T t (n + 1) P (perform (.setActive c session active now) : M G Unit)) :
    Steady T t n P (setToolActive c session active : M G Unit) := by
  apply Steady.withCondition hD
  apply Steady.bind (knownSession_steady c session)
  intro _
  apply Steady.bind (Steady.ite (fun _ => awaitEviction_steady hD c session) (fun _ => Steady.pure _))
  intro _
  exact markActive_steady hD hact

theorem toolObservations_steady (c : CoordId) (x : ToolArgs)
    (hn : (x.amountMib ≠ 0 ∨ x.totalMib.getD 0 ≠ 0) → (G.coord c).residentCapacityAccounting = false → SamplesAt T n) :
    Steady T t n P (toolObservations c x : M G Observations) :=
  Steady.ite (fun h => admissionSnapshot_steady hD c _ _ _ (hn h)) (fun _ => Steady.pure _)

theorem beginToolAdmission_steady {c : CoordId} {x : ToolArgs}
    (hn : (x.amountMib ≠ 0 ∨ x.totalMib.getD 0 ≠ 0) → (G.coord c).residentCapacityAccounting = false → SamplesAt T n)
    (hact : ∀ active now, Steady T t (n + 1) P (perform (.setActive c x.session active now) : M G Unit))
    (hacquire : ∀ o m, Steady T t m P (acquire c (x.acquire o) m t : M G ℤ)) :
    Steady T t n P (beginToolAdmission c x n t : M G ℤ) := by
  apply Steady.bind (toolObservations_steady hD c x hn)
  intro o
  apply Steady.ite
  · intro _
    apply Steady.bind (hacquire o n).attempt
    intro r
    cases r with
    | ok waited => exact Steady.pure _
    | error e =>
      apply Steady.bind (setToolActive_steady hD (hact false))
      intro _
      exact Steady.throw e
  · intro _
    apply Steady.withCondition hD
    apply Steady.bind (knownSession_steady c _)
    intro _
    apply Steady.bind (awaitEviction_steady hD c _)
    intro _
    apply Steady.bind (markActive_steady hD (hact true))
    intro _
    apply Steady.bind (hacquire o (n + 1)).attempt
    intro r
    cases r with
    | ok waited => exact Steady.pure _
    | error e =>
      apply Steady.bind (markActive_steady hD (hact false))
      intro _
      exact Steady.throw e

theorem releaseCall_steady {c : CoordId} {session : Session} {amountMib : ℕ} {waitClass : WaitClass}
    {totalMib : Option ℕ}
    (hact : ∀ total, Steady T t (n + 1) P (perform (.release c session (amountMib * mib : ℕ) waitClass total) :
      M G Unit)) :
    Steady T t n P (releaseCall c session amountMib waitClass totalMib : M G Unit) :=
  Steady.ite (fun _ => Steady.pure _) (fun _ => Steady.withCondition hD (hact _))

theorem runOperation_steady (c : CoordId) (session : Session) : Steady T t n P (runOperation c session : M G Unit) := by
  apply Steady.bind (Steady.query hD.ask (.operation c session) trivial)
  rintro ⟨ok, conflict⟩
  exact Steady.ensure _ _

theorem restoreOperation_steady (c : CoordId) (session : Session) :
    Steady T t n P (restoreOperation c session n : M G Unit) := by
  apply Steady.bind (runOperation_steady hD c session).attempt
  intro r
  split
  · exact Steady.pure _
  · apply Steady.bind (evictOneForWatermark_steady hD c _)
    intro evicted
    apply Steady.bind (Steady.ensure _ _)
    intro _
    exact runOperation_steady hD c session
  · exact Steady.throw _

theorem materialize_steady {c : CoordId} {session : Session} {amountMib : ℕ} {timeout : ℤ}
    (hacquire : Steady T t n P
      (acquire c { session, amountMib, timeout := some timeout, waitClass := .create } n t : M G ℤ))
    (hrelease : Steady T t n P (releaseCall c session amountMib .create none : M G Unit)) :
    Steady T t n P (materialize c session amountMib timeout n t : M G ℤ) := by
  apply Steady.bind hacquire
  intro waited
  apply Steady.bind (Steady.tryFinally (runOperation_steady hD c session) hrelease)
  intro _
  exact Steady.pure _

theorem restore_steady {c : CoordId} {session : Session} {amountMib : ℕ} {timeout : ℤ}
    (hacquire : Steady T t n P
      (acquire c { session, amountMib, timeout := some timeout, waitClass := .restore } n t : M G ℤ))
    (hrelease : Steady T t n P (releaseCall c session amountMib .restore none : M G Unit)) :
    Steady T t n P (restore c session amountMib timeout n t : M G ℤ) := by
  apply Steady.bind hacquire
  intro waited
  apply Steady.bind (Steady.tryFinally (restoreOperation_steady hD c session) hrelease)
  intro _
  exact Steady.pure _

end Calls

theorem Invocation.wp_code {P : World → Prop} (i : Invocation) (hA : Asks T) (hS : T.Stable t P)
    (hP : ∀ s, T.Inv s → P s) (h : Steady T t i.depth P (i.call.body t i.depth)) :
    T.wp t (i.code G t) (fun _ c => c.depth = 0) (.free none) := by
  have hbody : Steady T t (0 + i.depth) P (do
      let _ ← Code.attempt (S := sig G) (i.call.body t i.depth)
      query (.returned i.depth) : M G Unit) := by
    rw [Nat.zero_add]
    apply Steady.bind h.attempt
    intro _
    exact Steady.query hA (.returned i.depth) rfl
  apply wp_bind
  apply wp_mono _ (Triple.nested hS hbody (.free none) rfl hP)
  intro r c hc
  exact hc.1

end ClawBox.Policy
