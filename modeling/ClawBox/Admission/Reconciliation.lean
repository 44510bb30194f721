import ClawBox.Admission.Observation

namespace ClawBox.Admission

open Transition

def growth (measured : Measured) (key : Key) (baseline : ℤ × ℤ) : ℤ × ℤ :=
  match measured.get? key with
  | some ⟨⟨_, _, _, _, some _, _⟩, some r⟩ => (max 0 (r.1 - baseline.1), max 0 (r.2 - baseline.2))
  | _ => (0, 0)

def Claim.Nonneg (c : Claim) : Prop := 0 ≤ c.amount ∧ 0 ≤ c.localAmount

theorem growth_nonneg (measured : Measured) (key : Key) (baseline : ℤ × ℤ) :
    0 ≤ (growth measured key baseline).1 ∧ 0 ≤ (growth measured key baseline).2 := by
  unfold growth
  split
  · exact ⟨le_max_left _ _, le_max_left _ _⟩
  · exact ⟨le_refl 0, le_refl 0⟩

theorem charge_unmeasured {measured : Measured} {key : Key} (claim : Claim) (h : measured.get? key = none) :
    charge measured key claim = some (claim.amount, claim.localAmount) := by
  simp [charge, h]

theorem charge_changed {measured : Measured} {key : Key} {m : Sampled} {claim : Claim} (h : measured.get? key = some m)
    (hne : m.frozen.ident ≠ claim.ident ∨ m.frozen.baseline ≠ claim.baseline ∨ m.frozen.sample ≠ claim.sample) :
    charge measured key claim = some (claim.amount, claim.localAmount) := by
  simp only [charge, h, if_pos hne]

theorem charge_matched {measured : Measured} {key : Key} {m : Sampled} {claim : Claim} (h : measured.get? key = some m)
    (hi : m.frozen.ident = claim.ident) (hb : m.frozen.baseline = claim.baseline)
    (hs : m.frozen.sample = claim.sample) :
    charge measured key claim = m.value.map fun v => (max 0 (claim.amount - (m.frozen.amount - v.1)),
      max 0 (claim.localAmount - (m.frozen.localAmount - v.2))) := by
  simp [charge, h, hi, hb, hs]

theorem charge_bounds {measured : Measured} {key : Key} {claim : Claim} {r : ℤ × ℤ} (hc : claim.Nonneg)
    (hm : ∀ m, measured.get? key = some m → m.frozen.Nonneg) (hr : charge measured key claim = some r) :
    max 0 (claim.amount - (growth measured key claim.baseline).1) ≤ r.1 ∧ r.1 ≤ claim.amount ∧
      max 0 (claim.localAmount - (growth measured key claim.baseline).2) ≤ r.2 ∧ r.2 ≤ claim.localAmount := by
  have hg := growth_nonneg measured key claim.baseline
  have hnominal : r = (claim.amount, claim.localAmount) →
      max 0 (claim.amount - (growth measured key claim.baseline).1) ≤ r.1 ∧ r.1 ≤ claim.amount ∧
        max 0 (claim.localAmount - (growth measured key claim.baseline).2) ≤ r.2 ∧ r.2 ≤ claim.localAmount := by
    rintro rfl
    obtain ⟨ha, hl⟩ := hc
    dsimp only
    omega
  cases hk : measured.get? key with
  | none =>
    apply hnominal
    rw [charge_unmeasured claim hk] at hr
    exact (Option.some.inj hr).symm
  | some m =>
    by_cases hne : m.frozen.ident ≠ claim.ident ∨ m.frozen.baseline ≠ claim.baseline ∨ m.frozen.sample ≠ claim.sample
    · apply hnominal
      rw [charge_changed hk hne] at hr
      exact (Option.some.inj hr).symm
    · push Not at hne
      obtain ⟨hi, hb, hs⟩ := hne
      obtain ⟨hfa, hfl⟩ := hm m hk
      rw [charge_matched hk hi hb hs] at hr
      obtain ⟨⟨ident, scope, amount, localAmount, sample, baseline⟩, reading⟩ := m
      cases sample with
      | none =>
        apply hnominal
        simp only [Sampled.value, Claim.remaining, Option.map_some, Option.some.injEq] at hr
        rw [← hr]
        obtain ⟨ha, hl⟩ := hc
        simp [ha, hl]
      | some sampler =>
        cases reading with
        | none => simp [Sampled.value, Claim.remaining] at hr
        | some x =>
          simp only [Sampled.value, Claim.remaining, Option.map_some, Option.some.injEq] at hr
          simp only [growth, hk]
          dsimp only at hb hfa hfl
          subst hb
          obtain ⟨ha, hl⟩ := hc
          rw [← hr]
          dsimp only
          omega

theorem remaining_nonneg {c : Claim} {reading : Reading} {v : ℤ × ℤ} (hc : c.Nonneg)
    (h : c.remaining reading = some v) : 0 ≤ v.1 ∧ 0 ≤ v.2 := by
  unfold Claim.remaining at h
  split at h
  · rw [← Option.some.inj h]
    exact hc
  · obtain ⟨x, _, rfl⟩ := Option.map_eq_some_iff.mp h
    exact ⟨le_max_left _ _, le_max_left _ _⟩

theorem charge_unchanged {measured : Measured} {key : Key} {claim : Claim} {reading : Reading} (hc : claim.Nonneg)
    (h : measured.get? key = some ⟨claim, reading⟩) : charge measured key claim = claim.remaining reading := by
  rw [charge_matched h rfl rfl rfl]
  unfold Sampled.value
  cases hv : claim.remaining reading with
  | none => rfl
  | some v =>
    obtain ⟨h1, h2⟩ := remaining_nonneg hc hv
    simp [h1, h2]

namespace DemandLedger

theorem foldlM_charge (measured : Measured) (scope : Scope) (l : List (Key × Claim)) (acc out : ℤ × ℤ)
    (h : l.foldlM (fun acc e => (charge measured e.1 e.2).map fun r =>
      (acc.1 + r.1, if e.2.scope = scope then acc.2 + r.2 else acc.2)) acc = some out) :
    out.1 = acc.1 + (l.map fun e => ((charge measured e.1 e.2).getD 0).1).sum ∧
      out.2 = acc.2 + (l.map fun e => if e.2.scope = scope then ((charge measured e.1 e.2).getD 0).2 else 0).sum := by
  induction l generalizing acc with
  | nil =>
    obtain rfl := Option.some.inj h
    simp
  | cons e l ih =>
    rw [List.foldlM_cons] at h
    cases hr : charge measured e.1 e.2 with
    | none => simp [hr] at h
    | some r =>
      rw [hr] at h
      obtain ⟨h1, h2⟩ := ih _ h
      dsimp only at h1 h2
      simp only [List.map_cons, List.sum_cons, hr, Option.getD_some]
      constructor
      · rw [h1]
        omega
      · rw [h2]
        split_ifs <;> omega

theorem pendingFromObservation_eq {L : DemandLedger} {scope : Scope} {measured : Measured} {out : ℤ × ℤ}
    (h : L.pendingFromObservation scope measured = some out) :
    out.1 = L.claims.sum (fun k c => ((charge measured k c).getD 0).1) ∧
      out.2 = L.claims.sum (fun k c => if c.scope = scope then ((charge measured k c).getD 0).2 else 0) := by
  have := foldlM_charge measured scope _ _ _ h
  simpa [PyDict.sum] using this

theorem foldlM_unchanged (measured : Measured) (scope : Scope) (read : Key → Reading) (l : List (Key × Claim))
    (hl : ∀ e ∈ l, charge measured e.1 e.2 = e.2.remaining (read e.1)) (a b : ℤ) :
    l.foldlM (fun acc e => (charge measured e.1 e.2).map fun r =>
        (acc.1 + r.1, if e.2.scope = scope then acc.2 + r.2 else acc.2)) (a, b) =
      (l.foldlM (fun acc (e : Key × Claim) => (e.2.remaining (read e.1)).map fun r => acc + r.1) a).bind fun g =>
        (l.foldlM (fun acc (e : Key × Claim) => if e.2.scope = scope then (e.2.remaining (read e.1)).map fun r =>
          acc + r.2
          else some acc) b).map fun t => (g, t) := by
  induction l generalizing a b with
  | nil => rfl
  | cons e l ih =>
    simp only [List.foldlM_cons]
    rw [hl e (by simp)]
    cases hr : e.2.remaining (read e.1) with
    | none => rfl
    | some r =>
      have hrest := ih (fun x hx => hl x (List.mem_cons_of_mem _ hx))
      by_cases hs : e.2.scope = scope
      · simpa [hs] using hrest (a + r.1) (b + r.2)
      · simpa [hs] using hrest (a + r.1) b

theorem pendingFromObservation_unchanged {L : DemandLedger} {f : Future} {read : Key → Reading}
    (hL : ∀ k c, L.claims.get? k = some c → c.Nonneg) (h : f.snapshot = L.claims)
    (hread : ∀ k e, f.measured.get? k = some e → read k = e.reading) (scope : Scope) :
    L.pendingFromObservation scope f.measured =
      (L.pending none read).bind fun g => (L.pending (some scope) read).map fun t => (g, t) := by
  apply foldlM_unchanged
  intro e he
  have hget : L.claims.get? e.1 = some e.2 := PyDict.get?_eq_some.mpr he
  have hm : f.measured.get? e.1 = some ⟨e.2, f.reading e.1⟩ := by
    rw [Future.measured, PyDict.get?_mapValues, h, hget]
    rfl
  rw [hread _ _ hm]
  exact charge_unchanged (hL _ _ hget) hm

end DemandLedger

theorem Future.get?_measured {f : Future} {key : Key} {m : Sampled} (h : f.measured.get? key = some m) :
    f.snapshot.get? key = some m.frozen := by
  rw [Future.measured, PyDict.get?_mapValues] at h
  obtain ⟨c, hc, rfl⟩ := Option.map_eq_some_iff.mp h
  exact hc

namespace Observing

inductive Effect (s t : Observing) : Prop
  | op (op : LedgerOp) (hfree : s.copying = none) (hop : op.NonNegative)
      (ht : t = { s with ledger := (op.run s.ledger).2 })
  | rebind (key : Key) (claim : Claim) (sample : Option Sampler) (baseline : ℤ × ℤ)
      (hget : s.ledger.claims.get? key = some claim)
      (hl : t.ledger = { s.ledger with claims := s.ledger.claims.set key { claim with sample, baseline } })
      (hf : t.futures = s.futures) (hn : t.nextFuture = s.nextFuture) (hc : t.copying = s.copying)
  | quiet (hl : t.ledger = s.ledger) (hf : t.futures = s.futures) (hn : t.nextFuture = s.nextFuture)
      (hc : t.copying = s.copying)
  | start (hfree : s.copying = none) (ht : t = { s.setFuture s.nextFuture {} with
      exactSampleFuture := some s.nextFuture
      nextFuture := s.nextFuture + 1
      copying := some { future := s.nextFuture, todo := s.ledger.claims.keys } })
  | copySample (i : ℕ) (key : Key) (todo : List Key) (claim : Claim) (hc : s.copying = some ⟨i, key :: todo, none⟩)
      (hget : s.ledger.claims.get? key = some claim)
      (ht : t = { s with copying := some ⟨i, key :: todo, some claim.sample⟩ })
  | copyBaseline (i : ℕ) (key : Key) (todo : List Key) (sample : Option Sampler) (f : Future) (claim : Claim)
      (hc : s.copying = some ⟨i, key :: todo, some sample⟩) (hf : s.futures i = some f)
      (hget : s.ledger.claims.get? key = some claim)
      (ht : t = { s.setFuture i { f with snapshot := f.snapshot.set key { claim with sample } } with
        copying := some ⟨i, todo, none⟩ })
  | endSnapshot (i : ℕ) (sample : Option (Option Sampler)) (hc : s.copying = some ⟨i, [], sample⟩)
      (ht : t = { s with copying := none })
  | readClaim (i : ℕ) (key : Key) (reading : Reading) (f : Future) (hf : s.futures i = some f)
      (ht : t = s.setFuture i { f with readings := f.readings.set key reading })

theorem storeInto_cases (L : DemandLedger) (key : Key) (ident : ℕ) (f : Claim → Claim) :
    storeInto L key ident f = L ∨
      ∃ c, L.claims.get? key = some c ∧ storeInto L key ident f = { L with claims := L.claims.set key (f c) } := by
  unfold storeInto
  split
  · exact .inl rfl
  · rename_i c hc
    split_ifs
    · exact .inr ⟨c, hc, rfl⟩
    · exact .inl rfl

theorem Effect.stored {s t : Observing} {key : Key} {ident : ℕ} {f : Claim → Claim}
    (hf : ∀ c, ∃ sample baseline, f c = { c with sample, baseline }) (hl : t.ledger = storeInto s.ledger key ident f)
    (hfu : t.futures = s.futures) (hn : t.nextFuture = s.nextFuture) (hc : t.copying = s.copying) : Effect s t := by
  rcases storeInto_cases s.ledger key ident f with h | ⟨c, hget, h⟩
  · exact .quiet (hl.trans h) hfu hn hc
  · obtain ⟨sample, baseline, hfc⟩ := hf c
    exact .rebind key c sample baseline hget (by rw [hl, h, hfc]) hfu hn hc

theorem next_effect {s t : Observing} {a : Action} {e : Except LedgerError Unit} (h : next s a = some (t, e)) :
    Effect s t := by
  cases a with
  | ledger op =>
    simp only [next] at h
    split_ifs at h with hg
    obtain ⟨rfl, rfl⟩ := Prod.mk.inj (Option.some.inj h)
    exact .op op hg.1 hg.2 rfl
  | registerMemory session tool lifecycle reading =>
    simp only [next] at h
    split_ifs at h with hg
    have ht : t = (s.registerMemory session tool lifecycle reading).1 := by rw [Option.some.inj h]
    unfold registerMemory at ht
    cases hk : s.ledger.claims.get? (session, .create) with
    | none =>
      simp only [hk] at ht
      subst ht
      exact .quiet rfl rfl rfl rfl
    | some claim =>
      cases reading with
      | none =>
        simp only [hk] at ht
        subst ht
        exact .stored (fun c => ⟨_, c.baseline, rfl⟩) rfl rfl rfl rfl
      | some b =>
        simp only [hk] at ht
        subst ht
        exact .stored (fun c => ⟨_, _, rfl⟩) rfl rfl rfl rfl
  | bindLookup b session =>
    simp only [next] at h
    split at h
    · obtain ⟨rfl, rfl⟩ := Prod.mk.inj (Option.some.inj h)
      unfold bindLookup
      split
      · split_ifs
        · exact .quiet rfl rfl rfl rfl
        · exact .quiet rfl rfl rfl rfl
      · exact .quiet rfl rfl rfl rfl
    · cases h
  | bindSample b reading =>
    simp only [next] at h
    split at h
    · obtain ⟨rfl, rfl⟩ := Prod.mk.inj (Option.some.inj h)
      exact .quiet rfl rfl rfl rfl
    · obtain ⟨rfl, rfl⟩ := Prod.mk.inj (Option.some.inj h)
      exact .quiet rfl rfl rfl rfl
    · cases h
  | bindCheck b =>
    simp only [next] at h
    split at h
    · obtain ⟨rfl, rfl⟩ := Prod.mk.inj (Option.some.inj h)
      unfold bindCheck
      split
      · split_ifs
        · exact .quiet rfl rfl rfl rfl
        · exact .quiet rfl rfl rfl rfl
      · exact .quiet rfl rfl rfl rfl
    · cases h
  | bindBaseline b =>
    simp only [next] at h
    split at h
    · obtain ⟨rfl, rfl⟩ := Prod.mk.inj (Option.some.inj h)
      exact .stored (fun c => ⟨c.sample, _, rfl⟩) rfl rfl rfl rfl
    · cases h
  | bindSampler b =>
    simp only [next] at h
    split at h
    · obtain ⟨rfl, rfl⟩ := Prod.mk.inj (Option.some.inj h)
      exact .stored (fun c => ⟨_, c.baseline, rfl⟩) rfl rfl rfl rfl
    · cases h
  | startObservation =>
    simp only [next] at h
    split_ifs at h with hg
    obtain ⟨rfl, rfl⟩ := Prod.mk.inj (Option.some.inj h)
    unfold startObservation
    split
    · exact .quiet rfl rfl rfl rfl
    · exact .start hg rfl
  | copySample =>
    obtain ⟨u, hu, he⟩ := Option.map_eq_some_iff.mp h
    obtain ⟨rfl, rfl⟩ := Prod.mk.inj he
    unfold Observing.copySample at hu
    split at hu
    · rename_i i k todo hc
      obtain ⟨c, hget, rfl⟩ := Option.map_eq_some_iff.mp hu
      exact .copySample i k todo c hc hget rfl
    · cases hu
  | copyBaseline =>
    obtain ⟨u, hu, he⟩ := Option.map_eq_some_iff.mp h
    obtain ⟨rfl, rfl⟩ := Prod.mk.inj he
    unfold Observing.copyBaseline at hu
    split at hu
    · rename_i i k todo sample hc
      split at hu
      · rename_i f c hf hget
        exact .copyBaseline i k todo sample f c hc hf hget (Option.some.inj hu).symm
      · cases hu
    · cases hu
  | endSnapshot =>
    obtain ⟨u, hu, he⟩ := Option.map_eq_some_iff.mp h
    obtain ⟨rfl, rfl⟩ := Prod.mk.inj he
    unfold Observing.endSnapshot at hu
    split at hu
    · rename_i i sample hc
      exact .endSnapshot i sample hc (Option.some.inj hu).symm
    · cases hu
  | readClaim i key reading =>
    obtain ⟨u, hu, he⟩ := Option.map_eq_some_iff.mp h
    obtain ⟨rfl, rfl⟩ := Prod.mk.inj he
    unfold Observing.readClaim at hu
    split at hu
    · rename_i f hf
      split_ifs at hu
      exact .readClaim i key reading f hf (Option.some.inj hu).symm
    · cases hu
  | clearFuture i =>
    simp only [next] at h
    split_ifs at h
    obtain ⟨rfl, rfl⟩ := Prod.mk.inj (Option.some.inj h)
    exact .quiet rfl rfl rfl rfl

structure Sound (s : Observing) : Prop where
  accounted : s.ledger.Accounted
  copies : ∀ i f, s.futures i = some f → ∀ k c, f.snapshot.get? k = some c → c.Nonneg

@[simp] theorem setFuture_self (s : Observing) (i : ℕ) (f : Future) : (s.setFuture i f).futures i = some f := by
  simp [setFuture]

theorem setFuture_ne (s : Observing) {i j : ℕ} (f : Future) (h : j ≠ i) :
    (s.setFuture i f).futures j = s.futures j := by
  simp [setFuture, h]

theorem copies_setFuture {s : Observing} {P : Key → Claim → Prop} {i : ℕ} {f : Future}
    (h : ∀ j g, s.futures j = some g → ∀ k c, g.snapshot.get? k = some c → P k c)
    (hf : ∀ k c, f.snapshot.get? k = some c → P k c) :
    ∀ j g, (s.setFuture i f).futures j = some g → ∀ k c, g.snapshot.get? k = some c → P k c := by
  intro j g hg
  by_cases hj : j = i
  · subst j
    rw [setFuture_self] at hg
    obtain rfl := Option.some.inj hg
    exact hf
  · rw [setFuture_ne s f hj] at hg
    exact h j g hg

theorem get?_snapshot_set {f : Future} {P : Key → Claim → Prop} (h : ∀ k c, f.snapshot.get? k = some c → P k c)
    {key : Key} {claim : Claim} (hc : P key claim) : ∀ k c, (f.snapshot.set key claim).get? k = some c → P k c := by
  intro k c hk
  rw [PyDict.get?_set] at hk
  split_ifs at hk with he
  · obtain rfl := Option.some.inj hk
    exact he ▸ hc
  · exact h k c hk

theorem Sound.effect {s t : Observing} (h : Sound s) (he : Effect s t) : Sound t := by
  cases he with
  | op op _ hop ht =>
    subst ht
    exact ⟨DemandLedger.op_accounted h.accounted op hop, h.copies⟩
  | rebind key claim sample baseline hget hl hf _ _ =>
    constructor
    · rw [hl]
      exact h.accounted.rebind hget sample baseline
    · rw [hf]
      exact h.copies
  | quiet hl hf _ _ =>
    constructor
    · rw [hl]
      exact h.accounted
    · rw [hf]
      exact h.copies
  | start _ ht =>
    subst ht
    exact ⟨h.accounted, @copies_setFuture s (fun _ c => c.Nonneg) _ _ h.copies (by simp)⟩
  | copySample i key todo claim _ _ ht =>
    subst ht
    exact ⟨h.accounted, h.copies⟩
  | copyBaseline i key todo sample f claim _ hf hget ht =>
    subst ht
    refine ⟨h.accounted, @copies_setFuture s (fun _ c => c.Nonneg) _ _ h.copies ?_⟩
    exact @get?_snapshot_set f (fun _ c => c.Nonneg) (h.copies i f hf) key { claim with sample }
      (h.accounted.nonneg key claim hget)
  | endSnapshot i sample _ ht =>
    subst ht
    exact ⟨h.accounted, h.copies⟩
  | readClaim i key reading f hf ht =>
    subst ht
    exact ⟨h.accounted, @copies_setFuture s (fun _ c => c.Nonneg) _ _ h.copies (h.copies i f hf)⟩

theorem reachable_sound {s : Observing} (h : Reachable system s) : Sound s := by
  apply h.invariant
  · rintro s ⟨capacity, freeFloor, margin, L, hL, rfl⟩
    exact ⟨DemandLedger.new_accounted hL, by simp⟩
  · intro s l t hs hstep
    exact hs.effect (next_effect hstep)

structure Taken (C : PyDict Key Claim) (i : ℕ) (s : Observing) : Prop where
  born : i < s.nextFuture
  copied : ∀ f, s.futures i = some f → ∀ k c, f.snapshot.get? k = some c → ∃ c₀, C.get? k = some c₀ ∧ c₀.ident = c.ident
  live : ¬ s.CopiedOut i →
    ∀ k c, s.ledger.claims.get? k = some c → ∃ c₀, C.get? k = some c₀ ∧ c₀.ident = c.ident

theorem copiedOut_of_free {s : Observing} (h : s.copying = none) (i : ℕ) : s.CopiedOut i := by
  simp [CopiedOut, h]

theorem Taken.effect {C : PyDict Key Claim} {i : ℕ} {s t : Observing} (h : Taken C i s) (he : Effect s t) :
    Taken C i t := by
  have hborn := h.born
  cases he with
  | op op hfree _ ht =>
    subst ht
    refine ⟨h.born, h.copied, ?_⟩
    intro hcopy
    exact absurd (copiedOut_of_free hfree i) hcopy
  | rebind key claim sample baseline hget hl hf hn hc =>
    constructor
    · omega
    · rw [hf]
      exact h.copied
    · intro hcopy k c hk
      have hlive := h.live (by simpa [CopiedOut, hc] using hcopy)
      rw [hl, PyDict.get?_set] at hk
      split_ifs at hk with hkey
      · obtain rfl := Option.some.inj hk
        subst hkey
        exact hlive k claim hget
      · exact hlive k c hk
  | quiet hl hf hn hc =>
    constructor
    · omega
    · rw [hf]
      exact h.copied
    · rw [hl]
      simpa [CopiedOut, hc] using h.live
  | start hfree ht =>
    subst ht
    have hne : i ≠ s.nextFuture := by omega
    constructor
    · dsimp only
      omega
    · intro f hf
      rw [setFuture_ne s _ hne] at hf
      exact h.copied f hf
    · intro hcopy
      exact absurd (by simpa [CopiedOut] using Ne.symm hne) hcopy
  | copySample j key todo claim hc _ ht =>
    subst ht
    refine ⟨h.born, h.copied, ?_⟩
    intro hcopy
    apply h.live
    simpa [CopiedOut, hc] using hcopy
  | copyBaseline j key todo sample f claim hc hf hget ht =>
    subst ht
    refine ⟨h.born, ?_, ?_⟩
    · intro g hg
      by_cases hj : i = j
      · subst hj
        rw [setFuture_self] at hg
        obtain rfl := Option.some.inj hg
        have hlive := h.live (by simp [CopiedOut, hc])
        exact @get?_snapshot_set f (fun k c => ∃ c₀, C.get? k = some c₀ ∧ c₀.ident = c.ident) (h.copied f hf) key
          { claim with sample } (hlive key claim hget)
      · rw [setFuture_ne s _ hj] at hg
        exact h.copied g hg
    · intro hcopy
      apply h.live
      simpa [CopiedOut, hc] using hcopy
  | endSnapshot j sample hc ht =>
    subst ht
    refine ⟨h.born, h.copied, ?_⟩
    intro hcopy
    exact absurd (copiedOut_of_free rfl i) hcopy
  | readClaim j key reading f hf ht =>
    subst ht
    refine ⟨h.born, ?_, h.live⟩
    intro g hg
    by_cases hj : i = j
    · subst hj
      rw [setFuture_self] at hg
      obtain rfl := Option.some.inj hg
      exact h.copied f hf
    · rw [setFuture_ne s _ hj] at hg
      exact h.copied g hg

structure Copied (C : PyDict Key Claim) (i : ℕ) (s : Observing) (f : Future) : Prop where
  finished : s.CopiedOut i → f.snapshot = C
  rest : ∀ cp, s.copying = some cp → cp.future = i → ∃ rest, C.entries = f.snapshot.entries ++ rest ∧
    cp.todo = rest.map Prod.fst ∧ ∀ sample, cp.sample = some sample → ∀ e ∈ rest.head?, sample = e.2.sample

theorem Copied.congr {C : PyDict Key Claim} {i : ℕ} {s t : Observing} {f g : Future} (h : Copied C i s f)
    (hc : t.copying = s.copying) (hg : g.snapshot = f.snapshot) : Copied C i t g := by
  constructor
  · intro hout
    rw [hg]
    apply h.finished
    simpa [CopiedOut, hc] using hout
  · rw [hc, hg]
    exact h.rest

theorem Copied.effect {C : PyDict Key Claim} {i : ℕ} {s t : Observing} {f : Future} (h : Copied C i s f)
    (hC : s.ledger.claims = C) (hf : s.futures i = some f) (hborn : i < s.nextFuture) (he : Effect s t) :
    ∃ g, t.futures i = some g ∧ Copied C i t g := by
  cases he with
  | op op _ _ ht =>
    subst ht
    exact ⟨f, hf, h.congr rfl rfl⟩
  | rebind key claim sample baseline _ _ hfu _ hc => exact ⟨f, by rw [hfu, hf], h.congr hc rfl⟩
  | quiet _ hfu _ hc => exact ⟨f, by rw [hfu, hf], h.congr hc rfl⟩
  | start hfree ht =>
    subst ht
    have hne : i ≠ s.nextFuture := by omega
    refine ⟨f, (setFuture_ne s _ hne).trans hf, ?_, ?_⟩
    · intro _
      exact h.finished (copiedOut_of_free hfree i)
    · intro cp hcp hi
      obtain rfl := Option.some.inj hcp
      exact absurd hi (Ne.symm hne)
  | copySample j key todo claim hc hget ht =>
    subst ht
    refine ⟨f, hf, ?_, ?_⟩
    · intro hout
      apply h.finished
      simpa [CopiedOut, hc] using hout
    · intro cp hcp hi
      obtain rfl := Option.some.inj hcp
      obtain ⟨rest, hrest, htodo, _⟩ := h.rest _ hc hi
      refine ⟨rest, hrest, htodo, ?_⟩
      intro sample hsample e he
      -- the entry under the key just read is the head of what is left
      obtain ⟨l, rfl⟩ : ∃ l, rest = e :: l := by
        cases rest with
        | nil => cases he
        | cons x l => exact ⟨l, by rw [Option.some.inj he]⟩
      have hkey : key = e.1 := by simpa using congrArg List.head? htodo
      have hmem : s.ledger.claims.get? e.1 = some e.2 := by
        rw [hC, PyDict.get?_eq_some, hrest]
        simp
      rw [hkey, hmem] at hget
      rw [← Option.some.inj hsample, ← Option.some.inj hget]
  | copyBaseline j key todo sample g claim hc hg hget ht =>
    subst ht
    by_cases hj : i = j
    · subst hj
      rw [hf] at hg
      obtain rfl := Option.some.inj hg
      obtain ⟨rest, hrest, htodo, hsample⟩ := h.rest _ hc rfl
      cases rest with
      | nil => simp at htodo
      | cons e l =>
        simp only [List.map_cons, List.cons.injEq] at htodo
        obtain ⟨rfl, rfl⟩ := htodo
        have hmem : s.ledger.claims.get? e.1 = some e.2 := by
          rw [hC, PyDict.get?_eq_some, hrest]
          simp
        rw [hmem] at hget
        obtain rfl := Option.some.inj hget
        have hcopy : ({ e.2 with sample } : Claim) = e.2 := by rw [hsample sample rfl e rfl]
        have hnew : e.1 ∉ f.snapshot.keys := by
          have hnd := C.nodup
          rw [hrest, List.map_append, List.map_cons, List.nodup_append] at hnd
          intro hin
          exact hnd.2.2 e.1 hin e.1 (by simp) rfl
        refine ⟨_, setFuture_self s i _, ?_, ?_⟩
        · intro hout
          exact absurd rfl (hout _ rfl)
        · intro cp hcp _
          obtain rfl := Option.some.inj hcp
          refine ⟨l, ?_, rfl, by simp⟩
          rw [hcopy, PyDict.entries_set_new _ hnew, hrest]
          simp
    · refine ⟨f, (setFuture_ne s _ hj).trans hf, ?_, ?_⟩
      · intro _
        apply h.finished
        simpa [CopiedOut, hc] using Ne.symm hj
      · intro cp hcp hi
        obtain rfl := Option.some.inj hcp
        exact absurd hi (Ne.symm hj)
  | endSnapshot j sample hc ht =>
    subst ht
    refine ⟨f, hf, ?_, by simp⟩
    intro _
    by_cases hj : j = i
    · obtain ⟨rest, hrest, htodo, _⟩ := h.rest _ hc hj
      obtain rfl : rest = [] := by simpa using htodo.symm
      rw [List.append_nil] at hrest
      rcases hs : f.snapshot with ⟨entries, nodup⟩
      rcases C with ⟨entries', nodup'⟩
      simp only [hs] at hrest
      subst hrest
      rfl
    · apply h.finished
      simpa [CopiedOut, hc] using hj
  | readClaim j key reading g hg ht =>
    subst ht
    by_cases hj : i = j
    · subst hj
      rw [hf] at hg
      obtain rfl := Option.some.inj hg
      exact ⟨_, setFuture_self s i _, h.congr rfl rfl⟩
    · exact ⟨f, (setFuture_ne s _ hj).trans hf, h.congr rfl rfl⟩

/-- The ledger as the reconciliation loop reads it: amounts and identities change only under the condition, a sampler
or a baseline also while the loop runs. -/
def asRead (L : DemandLedger) (read : Key → Option Sampler × (ℤ × ℤ)) : DemandLedger :=
  { L with claims := L.claims.mapValues fun k c => { c with sample := (read k).1, baseline := (read k).2 } }

theorem get?_asRead {L : DemandLedger} {read : Key → Option Sampler × (ℤ × ℤ)} {k : Key} {c : Claim}
    (h : (asRead L read).claims.get? k = some c) :
    ∃ c', L.claims.get? k = some c' ∧ c.ident = c'.ident ∧ c.amount = c'.amount ∧ c.localAmount = c'.localAmount := by
  simp only [asRead, PyDict.get?_mapValues] at h
  obtain ⟨c', hc', rfl⟩ := Option.map_eq_some_iff.mp h
  exact ⟨c', hc', rfl, rfl, rfl⟩

theorem result_eq {s : Observing} {i : ℕ} {m : Measured} (h : s.result i = some m) :
    ∃ f, s.futures i = some f ∧ s.CopiedOut i ∧ m = f.measured := by
  unfold result at h
  split at h
  · rename_i f hf
    split_ifs at h with hg
    exact ⟨f, hf, hg.1, (Option.some.inj h).symm⟩
  · cases h

theorem start_eq {s₀ s₁ : Observing} (hlead : s₀.exactSampleFuture = none)
    (hstart : system.step s₀ (.startObservation, .ok ()) s₁) :
    s₁ = { s₀.setFuture s₀.nextFuture {} with
      exactSampleFuture := some s₀.nextFuture
      nextFuture := s₀.nextFuture + 1
      copying := some { future := s₀.nextFuture, todo := s₀.ledger.claims.keys } } := by
  have h : next s₀ .startObservation = some (s₁, .ok ()) := hstart
  simp only [next, startObservation, hlead] at h
  split_ifs at h
  rw [← (Prod.mk.inj (Option.some.inj h)).1]

theorem start_taken {s₀ s₁ : Observing} (hlead : s₀.exactSampleFuture = none)
    (hstart : system.step s₀ (.startObservation, .ok ()) s₁) : Taken s₀.ledger.claims s₀.nextFuture s₁ := by
  obtain rfl := start_eq hlead hstart
  constructor
  · exact Nat.lt_succ_self _
  · intro f hf k c hk
    rw [setFuture_self] at hf
    obtain rfl := Option.some.inj hf
    cases hk
  · intro _ k c hk
    exact ⟨c, hk, rfl⟩

theorem start_copied {s₀ s₁ : Observing} (hlead : s₀.exactSampleFuture = none)
    (hstart : system.step s₀ (.startObservation, .ok ()) s₁) :
    ∃ f, s₁.futures s₀.nextFuture = some f ∧ Copied s₀.ledger.claims s₀.nextFuture s₁ f := by
  obtain rfl := start_eq hlead hstart
  refine ⟨_, setFuture_self s₀ _ _, ?_, ?_⟩
  · intro hout
    exact absurd rfl (hout _ rfl)
  · intro cp hcp _
    obtain rfl := Option.some.inj hcp
    exact ⟨s₀.ledger.claims.entries, rfl, rfl, by simp⟩

theorem snapshot_eq {s₀ s₁ s : Observing} {ls : List (Action × Except LedgerError Unit)}
    (hlead : s₀.exactSampleFuture = none) (hstart : system.step s₀ (.startObservation, .ok ()) s₁)
    (hrun : Run (system.restrict fun u _ => u.ledger.claims = s₀.ledger.claims) s₁ ls s) {f : Future}
    (hf : s.futures s₀.nextFuture = some f) (hout : s.CopiedOut s₀.nextFuture) : f.snapshot = s₀.ledger.claims := by
  have hinv := hrun.invariant (I := fun u => Taken s₀.ledger.claims s₀.nextFuture u ∧
      ∃ f, u.futures s₀.nextFuture = some f ∧ Copied s₀.ledger.claims s₀.nextFuture u f) ?_
    ⟨start_taken hlead hstart, start_copied hlead hstart⟩
  · obtain ⟨_, g, hg, hcopied⟩ := hinv
    rw [hf] at hg
    obtain rfl := Option.some.inj hg
    exact hcopied.finished hout
  · rintro u l v ⟨htaken, g, hg, hcopied⟩ ⟨hstep, hclaims⟩
    have he := next_effect hstep
    exact ⟨htaken.effect he, hcopied.effect hclaims hg htaken.born he⟩

theorem observation_reconciles {s₀ s₁ s : Observing} {ls : List (Action × Except LedgerError Unit)} {m : Measured}
    (h₀ : Reachable system s₀) (hlead : s₀.exactSampleFuture = none)
    (hstart : system.step s₀ (.startObservation, .ok ()) s₁) (hrun : Run system s₁ ls s)
    (hm : s.result s₀.nextFuture = some m) :
    (∀ read k c r, (asRead s.ledger read).claims.get? k = some c → charge m k c = some r →
      max 0 (c.amount - (growth m k c.baseline).1) ≤ r.1 ∧ r.1 ≤ c.amount ∧
        max 0 (c.localAmount - (growth m k c.baseline).2) ≤ r.2 ∧ r.2 ≤ c.localAmount) ∧
    (∀ read k c, (asRead s.ledger read).claims.get? k = some c →
      (∀ c₀, s₀.ledger.claims.get? k = some c₀ → c₀.ident ≠ c.ident) ∨
        (∀ e, m.get? k = some e → e.frozen.baseline ≠ c.baseline ∨ e.frozen.sample ≠ c.sample) →
      charge m k c = some (c.amount, c.localAmount)) ∧
    (∀ read scope out, (asRead s.ledger read).pendingFromObservation scope m = some out →
      out.1 = (asRead s.ledger read).claims.sum (fun k c => ((charge m k c).getD 0).1) ∧
      out.2 = (asRead s.ledger read).claims.sum
        (fun k c => if c.scope = scope then ((charge m k c).getD 0).2 else 0)) ∧
    (Run (system.restrict fun u _ => u.ledger.claims = s₀.ledger.claims) s₁ ls s →
      s.ledger.claims = s₀.ledger.claims →
      ∀ read : Key → Reading, (∀ k e, m.get? k = some e → read k = e.reading) →
      ∀ scope, s.ledger.pendingFromObservation scope m =
        (s.ledger.pending none read).bind fun g => (s.ledger.pending (some scope) read).map fun t => (g, t)) := by
  obtain ⟨f, hf, hout, rfl⟩ := result_eq hm
  have hs₁ : Reachable system s₁ := h₀.step hstart
  have hsound : Sound s := reachable_sound (hs₁.run hrun)
  have htaken : Taken s₀.ledger.claims s₀.nextFuture s :=
    hrun.invariant (fun u l v hu hstep => hu.effect (next_effect hstep)) (start_taken hlead hstart)
  refine ⟨?_, ?_, ?_, ?_⟩
  · intro read k c r hk hr
    obtain ⟨c', hc', _, ha, hl⟩ := get?_asRead hk
    apply charge_bounds _ _ hr
    · rw [Claim.Nonneg, ha, hl]
      exact hsound.accounted.nonneg k c' hc'
    · intro e he
      exact hsound.copies _ f hf k _ (Future.get?_measured he)
  · intro read k c hk hnew
    cases he : f.measured.get? k with
    | none => exact charge_unmeasured c he
    | some e =>
      apply charge_changed he
      rcases hnew with hnew | hnew
      · obtain ⟨c₀, hc₀, hid⟩ := htaken.copied f hf k _ (Future.get?_measured he)
        have hne := hnew c₀ hc₀
        rw [hid] at hne
        exact .inl hne
      · exact .inr (hnew e he)
  · intro read scope out h
    exact DemandLedger.pendingFromObservation_eq h
  · intro hquiet hsame read hread scope
    apply DemandLedger.pendingFromObservation_unchanged hsound.accounted.nonneg _ hread
    rw [snapshot_eq hlead hstart hquiet hf hout, hsame]

-- a claim of 10 with baseline 5 has grown by 4 when it is sampled
def sampledRun : List Action :=
  [.copySample, .copyBaseline, .endSnapshot, .readClaim 0 (7, .toolAdmission) (some (9, 9))]

def beforeObservation : Observing :=
  (trace next { ledger := { capacity := 64, freeFloor := 0, margin := 0 } }
    [.ledger (.add (7, .toolAdmission) 0 10 10 (some 1) (some (5, 5)))]).1

theorem beforeObservation_reachable : Reachable system beforeObservation := by
  have h : Start { ledger := { capacity := 64, freeFloor := 0, margin := 0 } } := ⟨64, 0, 0, _, rfl, rfl⟩
  exact (Reachable.start (T := system) h).trace _

theorem observation_reconciles_grown :
    let s := (trace next (trace next beforeObservation [.startObservation]).1 sampledRun).1
    ∃ m, s.result 0 = some m ∧ charge m (7, .toolAdmission) ⟨0, 0, 10, 10, some 1, (5, 5)⟩ = some (6, 6) ∧
      max 0 (10 - (growth m (7, .toolAdmission) (5, 5)).1) ≤ (6 : ℤ) := by
  intro s
  have hstart : system.step beforeObservation (.startObservation, .ok ())
    (trace next beforeObservation [.startObservation]).1 := rfl
  have hrun := run_trace Start next (trace next beforeObservation [.startObservation]).1 sampledRun
  refine ⟨_, rfl, by decide, ?_⟩
  exact ((observation_reconciles beforeObservation_reachable rfl hstart hrun rfl).1 (fun _ => (some 1, (5, 5)))
    (7, .toolAdmission) ⟨0, 0, 10, 10, some 1, (5, 5)⟩ (6, 6) (by decide) (by decide)).1

theorem rebased_claim_below_nominal : ∃ s₀ s₁ s ls m,
    Reachable system s₀ ∧ s₀.exactSampleFuture = none ∧ system.step s₀ (.startObservation, .ok ()) s₁ ∧
      Run system s₁ ls s ∧ s.result s₀.nextFuture = some m ∧
      (.ledger (.rebase (7, .toolAdmission) (some (5, 5))), .ok ()) ∈ ls ∧
      ∃ c, s.ledger.claims.get? (7, .toolAdmission) = some c ∧ c.sample.isSome ∧
        charge m (7, .toolAdmission) c = some (6, 6) ∧ (c.amount, c.localAmount) = (10, 10) := by
  refine ⟨beforeObservation, (trace next beforeObservation [.startObservation]).1, _, _, _,
    beforeObservation_reachable, by decide, by rfl,
    run_trace Start next _ (sampledRun ++ [.ledger (.rebase (7, .toolAdmission) (some (5, 5)))]), by rfl, by decide, ?_⟩
  exact ⟨⟨0, 0, 10, 10, some 1, (5, 5)⟩, by decide⟩

end Observing

end ClawBox.Admission
