import ClawBox.Admission.Reconciliation

namespace ClawBox.Admission

namespace DemandLedger

open Raising

theorem adjust_claims (scope : Scope) (a l : ℤ) (L : DemandLedger) :
    ((adjustPendingUpperBound scope a l).run L).2.claims = L.claims := by
  rw [adjust_eq]
  dsimp only
  split_ifs <;> rfl

theorem add_ok {key : Key} {scope : Scope} {amount localAmount : ℤ} {sample : Option Sampler} {reading : Reading}
    {L L' : DemandLedger} (h : (add key scope amount localAmount sample reading).run L = (.ok (), L')) :
    L.claims.get? key = none ∧
      ∃ b, L'.claims = L.claims.set key ⟨L.nextIdent, scope, amount, localAmount, sample, b⟩ := by
  by_cases hdup : (L.claims.get? key).isSome
  · simp [add, hdup] at h
  · have hnone : L.claims.get? key = none := by simpa using hdup
    refine ⟨hnone, ?_⟩
    rcases firstBaseline_run sample reading L with ⟨b, hb⟩ | hb
    · simp only [add, run_get_bind, hdup, Bool.false_eq_true, if_false, run_bind_ok hb, run_modify_bind] at h
      refine ⟨b, ?_⟩
      have hclaims := adjust_claims scope amount localAmount
        { L with
          claims := L.claims.set key ⟨L.nextIdent, scope, amount, localAmount, sample, b⟩
          nextIdent := L.nextIdent + 1 }
      rw [h] at hclaims
      exact hclaims
    · simp [add, hdup, run_bind_error hb] at h

theorem extend_ok {key : Key} {amount localAmount : ℤ} {L L' : DemandLedger}
    (h : (extend key amount localAmount).run L = (.ok (), L')) :
    ∃ claim, L.claims.get? key = some claim ∧ L'.claims = L.claims.set key
      { claim with amount := claim.amount + amount, localAmount := claim.localAmount + localAmount } := by
  cases hk : L.claims.get? key with
  | none => simp [extend, hk] at h
  | some claim =>
    simp only [extend, run_get_bind, hk, setClaim, run_modify_bind] at h
    refine ⟨claim, rfl, ?_⟩
    obtain ⟨-, rfl⟩ := Prod.mk.inj h
    exact adjust_claims _ _ _ _

end DemandLedger

theorem charge_nonneg {m : Measured} {k : Key} {x : Claim} {r : ℤ × ℤ} (hx : x.Nonneg) (hr : charge m k x = some r) :
    0 ≤ r.1 ∧ 0 ≤ r.2 := by
  unfold charge at hr
  split at hr
  · obtain rfl := Option.some.inj hr
    exact hx
  · split_ifs at hr
    · obtain rfl := Option.some.inj hr
      exact hx
    · obtain ⟨v, _, rfl⟩ := Option.map_eq_some_iff.mp hr
      exact ⟨le_max_left _ _, le_max_left _ _⟩

namespace DemandLedger

theorem foldlM_isSome {m : Measured} {scope : Scope} {l : List (Key × Claim)} {acc : ℤ × ℤ}
    (h : ∀ e ∈ l, ∃ r, charge m e.1 e.2 = some r) :
    ∃ out, l.foldlM (fun acc e => (charge m e.1 e.2).map fun r =>
      (acc.1 + r.1, if e.2.scope = scope then acc.2 + r.2 else acc.2)) acc = some out := by
  induction l generalizing acc with
  | nil => exact ⟨acc, rfl⟩
  | cons e l ih =>
    obtain ⟨r, hr⟩ := h e (by simp)
    rw [List.foldlM_cons, hr]
    exact ih fun e he => h e (List.mem_cons_of_mem _ he)

theorem charge_of_foldlM {m : Measured} {scope : Scope} {l : List (Key × Claim)} {acc out : ℤ × ℤ}
    (h : l.foldlM (fun acc e => (charge m e.1 e.2).map fun r =>
      (acc.1 + r.1, if e.2.scope = scope then acc.2 + r.2 else acc.2)) acc = some out) :
    ∀ e ∈ l, ∃ r, charge m e.1 e.2 = some r := by
  induction l generalizing acc with
  | nil => simp
  | cons e l ih =>
    rw [List.foldlM_cons] at h
    cases hr : charge m e.1 e.2 with
    | none => simp [hr] at h
    | some r =>
      rw [hr] at h
      intro x hx
      rcases List.mem_cons.mp hx with rfl | hx
      · exact ⟨r, hr⟩
      · exact ih h x hx

theorem pendingFromObservation_le_upper {L : DemandLedger} {scope : Scope} {m : Measured} {r : ℤ × ℤ} (hL : Accounted L)
    (hm : ∀ k x, m.get? k = some x → x.frozen.Nonneg) (hr : L.pendingFromObservation scope m = some r) :
    r.1 ≤ L.pendingUpperBound none ∧ r.2 ≤ L.pendingUpperBound (some scope) := by
  obtain ⟨h1, h2⟩ := pendingFromObservation_eq hr
  have hcharge := charge_of_foldlM hr
  constructor
  · rw [h1, hL.total]
    apply PyDict.sum_le_sum
    intro k c hc
    obtain ⟨v, hv⟩ := hcharge (k, c) (PyDict.get?_eq_some.mp hc)
    rw [hv]
    exact (charge_bounds (hL.nonneg k c hc) (hm k) hv).2.1
  · rw [h2, hL.byScope]
    apply PyDict.sum_le_sum
    intro k c hc
    obtain ⟨v, hv⟩ := hcharge (k, c) (PyDict.get?_eq_some.mp hc)
    rw [hv]
    unfold Claim.localIn
    split_ifs
    · exact (charge_bounds (hL.nonneg k c hc) (hm k) hv).2.2.2
    · exact le_rfl

end DemandLedger

end ClawBox.Admission
