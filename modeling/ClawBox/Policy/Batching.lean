import ClawBox.Policy.Acquire
import ClawBox.Admission.LedgerEffects
import ClawBox.Lib.MonitorSolo

namespace ClawBox.Policy

open Admission Monitor

structure Memory where
  physical : ℤ × ℤ
  globalMemory : ℤ × ℤ
  pending : Observed
  readable : ∀ k x, pending.val.get? k = some x → x.value.isSome

def Memory.demand (O : Memory) (L : DemandLedger) (scope : Scope) : ℤ × ℤ :=
  (L.pendingFromObservation scope O.pending.val).getD (0, 0)

variable {G : Plant} {c : CoordId} {O : Memory} {s s' t : World} {q : Check} {f : Figures}
  {answers : (q : (sig G).Ask) → (sig G).Ans q}

theorem Memory.charge_isSome (O : Memory) (k : Key) (x : Claim) : ∃ r, charge O.pending.val k x = some r := by
  unfold charge
  cases h : O.pending.val.get? k with
  | none => exact ⟨_, rfl⟩
  | some m =>
    dsimp only
    split_ifs
    · exact ⟨_, rfl⟩
    · obtain ⟨v, hv⟩ := Option.isSome_iff_exists.1 (O.readable k m h)
      exact ⟨_, by rw [hv]; rfl⟩

theorem Memory.pending_eq (O : Memory) (L : DemandLedger) (scope : Scope) :
    L.pendingFromObservation scope O.pending.val = some (O.demand L scope) := by
  have h : ∃ out, L.pendingFromObservation scope O.pending.val = some out :=
    DemandLedger.foldlM_isSome fun e _ => O.charge_isSome e.1 e.2
  obtain ⟨out, hout⟩ := h
  unfold Memory.demand
  rw [hout]
  rfl

structure Seen (O : Memory) (c : CoordId) (answers : (q : (sig G).Ask) → (sig G).Ans q) (o : Observations) : Prop where
  physical : answers (.physical c) = some O.physical
  globalMemory : answers .globalMemory = some O.globalMemory
  pending : answers .pendingDemand = some O.pending
  handedPhysical : ∀ p, o.physical = some p → p = O.physical
  handedGlobal : ∀ p, o.globalMemory = some p → p = O.globalMemory
  handedPending : ∀ m, o.pending = some m → m = O.pending

def seenFigures (G : Plant) (c : CoordId) (O : Memory) (q : Check) (s : World) : Figures where
  used := O.physical.1
  available := O.physical.2
  globalUsed := O.globalMemory.1
  globalAvailable := O.globalMemory.2
  capacity := capacityFor c q s
  budget := budgetFor (G := G) c q O.physical.1 s
  pendingLocal := 0
  pendingGlobal := 0

def exactSeen (G : Plant) (c : CoordId) (O : Memory) (q : Check) (s : World) : Figures :=
  { seenFigures G c O q s with
    pendingGlobal := (O.demand s.demand (G.coord c).scope).1
    pendingLocal := (O.demand s.demand (G.coord c).scope).2
    measured := some O.pending }

structure Within (G : Plant) (c : CoordId) (L : DemandLedger) (q : Check) (f : Figures) : Prop where
  local_ : localCharge (G.coord c) q f ≤ f.budget ∨ q.exempt
  available : (G.coord c).emergencyFree ≤ f.available
  global : globalCharge (G.coord c) L q f ≤ L.capacity
  floor : L.freeFloor ≤ f.globalAvailable

def Calmed (s t : World) : Prop :=
  t = { s with demand := { s.demand with congested := t.demand.congested }, lastSevereAt := t.lastSevereAt }

theorem Calmed.refl (s : World) : Calmed s s := rfl

def Quiet (answers : (q : (sig G).Ask) → (sig G).Ans q) (O : Memory) : Prop :=
  answers .check = true ∧ answers (.severe O.globalMemory.1) = some false

def Verdict (answers : (q : (sig G).Ask) → (sig G).Ans q) (O : Memory) (s : World) (fits : Prop) :
    Except Error (List Reason × Figures) → World → Prop
  | .ok (reasons, _), t =>
    (reasons = [] → Quiet answers O ∧ fits ∧ Calmed s t ∧ t.demand.congested = false) ∧
      (Quiet answers O → s.demand.congested = false → fits → reasons = [] ∧ t = s)
  | .error _, _ => ¬Quiet answers O

section Solo

open Code

theorem ends_ensure {e : Error} {Q : Except Error Unit → World → Prop} (b : Bool) (hp : b = true → Q (.ok ()) s)
    (hn : b ≠ true → Q (.error e) s) : Ends answers (ensure (b = true) e : M G Unit) s Q :=
  Ends.ite (fun h => Ends.pure (hp h)) fun h => Ends.throw (hn h)

theorem ends_healthCheck {Q : Except Error Unit → World → Prop} (hok : answers .check = true → Q (.ok ()) s)
    (hfail : answers .check ≠ true → ∀ e, Q (.error e) s) : Ends answers (healthCheck : M G Unit) s Q := by
  apply Ends.bind
  apply Ends.ask
  exact ends_ensure (answers .check) hok fun h => hfail h _

theorem ends_updateCongestion (committed : ℤ) (severe : Bool) (s : World) :
    Ends answers (updateCongestion committed severe : M G Unit) s fun r t => r = .ok () ∧ Calmed s t ∧
      (t.demand.congested = false → severe = false) ∧ (severe = false → s.demand.congested = false → t = s) := by
  have hclear : s.demand.congested = true → severe = false → Ends answers (perform .clearCongested : M G Unit) s
      fun r t => r = .ok () ∧ Calmed s t ∧ (t.demand.congested = false → severe = false) ∧
        (severe = false → s.demand.congested = false → t = s) := by
    intro hc hs
    refine ⟨.ok (), _, rfl, rfl, rfl, fun _ => hs, fun _ hn => ?_⟩
    rw [hc] at hn
    cases hn
  have hstay : severe = false → Ends answers (pure () : M G Unit) s
      fun r t => r = .ok () ∧ Calmed s t ∧ (t.demand.congested = false → severe = false) ∧
        (severe = false → s.demand.congested = false → t = s) :=
    fun hs => Ends.pure ⟨rfl, .refl s, fun _ => hs, fun _ _ => rfl⟩
  apply Ends.ite
  · intro hs
    refine ⟨.ok (), _, rfl, rfl, rfl, fun h => ?_, fun h => ?_⟩
    · cases h
    · rw [hs] at h
      cases h
  · intro hs
    have hs : severe = false := by simpa using hs
    apply Ends.bind
    apply Ends.read
    apply Ends.ite
    · intro hc
      apply Ends.ite
      · intro _
        exact hclear hc hs
      · intro _
        cases s.lastSevereAt with
        | none => exact hstay hs
        | some since =>
          apply Ends.bind
          apply Ends.ask
          exact Ends.ite (fun _ => hclear hc hs) fun _ => hstay hs
    · intro _
      exact hstay hs

theorem ends_finalReasons (hg : f.globalUsed = O.globalMemory.1) :
    Ends answers (finalReasons c q f : M G _) s (Verdict answers O s (Within G c s.demand q f)) := by
  apply Ends.bind
  apply Ends.bind
  apply ends_healthCheck
  swap
  · intro hcheck e hq
    exact hcheck hq.1
  intro hcheck
  apply Ends.bind
  apply Ends.read
  apply Ends.bind
  apply Ends.bind
  apply Ends.ask
  rw [hg]
  cases hsevere : answers (.severe O.globalMemory.1) with
  | none =>
    apply Ends.throw
    intro hq
    have := hsevere.symm.trans hq.2
    cases this
  | some severe =>
    apply Ends.pure
    apply Ends.bind
    apply (ends_updateCongestion _ severe s).mono
    rintro r t ⟨rfl, hcalm, hs, hstays⟩
    apply Ends.bind
    apply Ends.read
    apply Ends.pure
    apply Ends.pure
    have hquiet : Quiet answers O ↔ severe = false := by
      constructor
      · intro hq
        exact Option.some.inj (hsevere.symm.trans hq.2)
      · rintro rfl
        exact ⟨hcheck, hsevere⟩
    have hempty : ∀ (p : Prop) [Decidable p] (r : Reason), (if p then [r] else []) = [] ↔ ¬p := by
      intro p _ r
      split_ifs with hp <;> simp [hp]
    constructor
    · intro hr
      simp only [List.append_eq_nil_iff, hempty] at hr
      obtain ⟨⟨h1, h2⟩, ⟨h3, h4⟩, h5⟩ := hr
      have hcongested : t.demand.congested = false := by simpa using h4
      refine ⟨hquiet.2 (hs hcongested), ⟨?_, ?_, ?_, ?_⟩, hcalm, hcongested⟩
      · rw [not_and, not_not] at h1
        by_cases hle : localCharge (G.coord c) q f ≤ f.budget
        · exact .inl hle
        · exact .inr (h1 (by omega))
      · omega
      · omega
      · omega
    · intro hq hcongested hw
      have ht := hstays (hquiet.1 hq) hcongested
      refine ⟨?_, ht⟩
      simp only [List.append_eq_nil_iff, hempty]
      refine ⟨⟨?_, ?_⟩, ⟨?_, ?_⟩, ?_⟩
      · rintro ⟨hlt, hne⟩
        rcases hw.local_ with h | h
        · omega
        · exact hne h
      · have := hw.available
        omega
      · have := hw.global
        omega
      · rw [ht, hcongested]
        simp
      · have := hw.floor
        omega

theorem ends_reconcile : Ends answers (reconcile c O.pending : M G _) s fun r t =>
    r = .ok (O.demand s.demand (G.coord c).scope) ∧ t = s := by
  apply Ends.bind
  apply Ends.read
  dsimp only
  rw [O.pending_eq]
  exact Ends.pure ⟨rfl, rfl⟩

theorem ends_physicalFor (hseen : Seen O c answers q.observations) :
    Ends answers (physicalFor c q : M G _) s fun r t => r = .ok O.physical ∧ t = s := by
  unfold physicalFor
  split
  · rename_i p hp
    rw [hseen.handedPhysical p hp]
    exact Ends.pure ⟨rfl, rfl⟩
  · apply Ends.unlocked
    apply Ends.bind
    apply Ends.ask
    rw [hseen.physical]
    exact Ends.pure ⟨rfl, rfl⟩

theorem ends_globalFor (hseen : Seen O c answers q.observations) :
    Ends answers (globalFor c q : M G _) s fun r t => r = .ok O.globalMemory ∧ t = s := by
  unfold globalFor
  split
  · rename_i p hp
    rw [hseen.handedGlobal p hp]
    exact Ends.pure ⟨rfl, rfl⟩
  · apply Ends.unlocked
    apply Ends.bind
    apply Ends.ask
    rw [hseen.globalMemory]
    exact Ends.pure ⟨rfl, rfl⟩

theorem ends_baseFigures (hseen : Seen O c answers q.observations) :
    Ends answers (baseFigures c q : M G _) s fun r t => r = .ok (seenFigures G c O q s) ∧ t = s := by
  apply Ends.bind
  apply (ends_physicalFor hseen).mono
  rintro r t ⟨rfl, rfl⟩
  apply Ends.bind
  apply Ends.read
  apply Ends.bind
  apply (ends_globalFor hseen).mono
  rintro r u ⟨rfl, rfl⟩
  exact Ends.pure ⟨rfl, rfl⟩

theorem ends_exactFigures (hseen : Seen O c answers q.observations) :
    Ends answers (exactFigures c q (seenFigures G c O q s) : M G _) s fun r t => r = .ok (exactSeen G c O q s) ∧
    t = s := by
  unfold exactFigures
  split
  · rename_i m hm
    rw [hseen.handedPending m hm]
    apply Ends.bind
    apply ends_reconcile.mono
    rintro r t ⟨rfl, rfl⟩
    apply Ends.bind
    apply Ends.read
    exact Ends.pure ⟨rfl, rfl⟩
  · apply Ends.bind
    apply Ends.unlocked
    apply Ends.bind
    apply Ends.ask
    rw [hseen.pending]
    apply Ends.pure
    apply Ends.bind
    apply ends_reconcile.mono
    rintro r t ⟨rfl, rfl⟩
    apply Ends.bind
    apply Ends.unlocked
    apply Ends.bind
    apply Ends.ask
    rw [hseen.physical]
    apply Ends.pure
    apply Ends.bind
    apply Ends.read
    apply Ends.bind
    apply Ends.unlocked
    apply Ends.bind
    apply Ends.ask
    rw [hseen.globalMemory]
    apply Ends.pure
    apply Ends.bind
    apply Ends.read
    exact Ends.pure ⟨rfl, rfl⟩

theorem Verdict.congr {fits fits' : Prop} (h : fits ↔ fits') {r : Except Error (List Reason × Figures)}
    (hv : Verdict answers O s fits r t) : Verdict answers O s fits' r t := by
  rwa [← propext h]

theorem Memory.demand_bounds (hL : s.demand.Accounted) (scope : Scope) :
    0 ≤ (O.demand s.demand scope).1 ∧ (O.demand s.demand scope).1 ≤ s.demand.pendingUpperBound none ∧
      0 ≤ (O.demand s.demand scope).2 ∧ (O.demand s.demand scope).2 ≤ s.demand.pendingUpperBound (some scope) := by
  have hr := O.pending_eq s.demand scope
  obtain ⟨h1, h2⟩ := DemandLedger.pendingFromObservation_le_upper hL O.pending.property hr
  obtain ⟨e1, e2⟩ := DemandLedger.pendingFromObservation_eq hr
  refine ⟨?_, h1, ?_, h2⟩
  · rw [e1]
    apply PyDict.sum_nonneg
    intro k x hx
    obtain ⟨v, hv⟩ := O.charge_isSome k x
    rw [hv]
    exact (charge_nonneg (hL.nonneg k x hx) hv).1
  · rw [e2]
    apply PyDict.sum_nonneg
    intro k x hx
    obtain ⟨v, hv⟩ := O.charge_isSome k x
    rw [hv]
    split_ifs
    · exact (charge_nonneg (hL.nonneg k x hx) hv).2
    · exact le_rfl

theorem within_upper_iff (hL : s.demand.Accounted)
    (hlocal : localCharge (G.coord c) q (upperFigures (G := G) c (seenFigures G c O q s) s) ≤
      (upperFigures (G := G) c (seenFigures G c O q s) s).budget)
    (hglobal : globalCharge (G.coord c) s.demand q (upperFigures (G := G) c (seenFigures G c O q s) s) ≤
      s.demand.capacity) :
    Within G c s.demand q (upperFigures (G := G) c (seenFigures G c O q s) s) ↔
      Within G c s.demand q (exactSeen G c O q s) := by
  obtain ⟨-, h1, -, h2⟩ := O.demand_bounds hL (G.coord c).scope
  have hl : localCharge (G.coord c) q (exactSeen G c O q s) ≤ (exactSeen G c O q s).budget := by
    simp only [localCharge, upperFigures, exactSeen, seenFigures] at hlocal ⊢
    omega
  have hg : globalCharge (G.coord c) s.demand q (exactSeen G c O q s) ≤ s.demand.capacity := by
    simp only [globalCharge, upperFigures, exactSeen, seenFigures] at hglobal ⊢
    omega
  constructor
  · intro h
    exact ⟨.inl hl, h.available, hg, h.floor⟩
  · intro h
    exact ⟨.inl hlocal, h.available, hglobal, h.floor⟩

theorem ends_chargedReasons (hseen : Seen O c answers q.observations) (hL : s.demand.Accounted) :
    Ends answers (chargedReasons c q (seenFigures G c O q s) : M G _) s
      (Verdict answers O s (Within G c s.demand q (exactSeen G c O q s))) := by
  apply Ends.bind
  apply Ends.read
  apply Ends.ite
  · intro hfits
    apply (ends_finalReasons rfl).mono
    intro r t hv
    exact hv.congr (within_upper_iff hL hfits.1 hfits.2)
  · intro _
    apply Ends.bind
    apply (ends_exactFigures hseen).mono
    rintro r t ⟨rfl, rfl⟩
    exact ends_finalReasons rfl

theorem ends_blockedReasons (hseen : Seen O c answers q.observations) (hL : s.demand.Accounted) :
    Ends answers (blockedReasons c q (seenFigures G c O q s) : M G _) s
      (Verdict answers O s (Within G c s.demand q (exactSeen G c O q s))) := by
  obtain ⟨h1, -, h2, -⟩ := O.demand_bounds hL (G.coord c).scope
  apply Ends.bind
  apply Ends.bind
  apply ends_healthCheck
  swap
  · intro hcheck e hq
    exact hcheck hq.1
  intro _
  apply Ends.bind
  apply Ends.read
  apply Ends.pure
  dsimp only
  split_ifs with hlocal hglobal
  · refine Ends.pure ⟨by simp, fun _ _ hw => ?_⟩
    rcases hw.local_ with h | h
    · simp only [localCharge, exactSeen, seenFigures] at h hlocal
      omega
    · exact absurd h hlocal.2
  · refine Ends.pure ⟨by simp, fun _ _ hw => ?_⟩
    have h := hw.global
    simp only [globalCharge, exactSeen, seenFigures] at h hglobal
    omega
  · exact ends_chargedReasons hseen hL

theorem ends_pressureReasons (hr : (G.coord c).residentCapacityAccounting = false)
    (hseen : Seen O c answers q.observations) (hL : s.demand.Accounted) :
    Ends answers (pressureReasons c q : M G _) s
      (Verdict answers O s (Within G c s.demand q (exactSeen G c O q s))) := by
  apply Ends.ite
  · intro h
    rw [hr] at h
    cases h
  · intro _
    apply Ends.bind
    apply (ends_baseFigures hseen).mono
    rintro r t ⟨rfl, rfl⟩
    exact Ends.ite (fun _ => ends_blockedReasons hseen hL) fun _ => ends_chargedReasons hseen hL

end Solo

end ClawBox.Policy
