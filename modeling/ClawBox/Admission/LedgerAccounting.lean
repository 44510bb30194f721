import ClawBox.Admission.Ledger

namespace ClawBox.Admission

namespace DemandLedger

structure Accounted (L : DemandLedger) : Prop where
  total : L.pendingUpperBound none = L.claims.sum (fun _ c => c.amount)
  byScope : ∀ s, L.pendingUpperBound (some s) = L.claims.sum (fun _ c => c.localIn s)
  positive : ∀ s v, L.pendingLocalByScope.get? s = some v → 0 < v
  nonneg : ∀ k c, L.claims.get? k = some c → 0 ≤ c.amount ∧ 0 ≤ c.localAmount
  fresh : ∀ k c, L.claims.get? k = some c → c.ident < L.nextIdent

theorem adjust_eq (L : DemandLedger) (scope : Scope) (amountDelta localDelta : ℤ) :
    (adjustPendingUpperBound scope amountDelta localDelta).run L =
      let M := { L with pendingAmount := L.pendingAmount + amountDelta }
      let inScope := (L.pendingLocalByScope.get? scope).getD 0 + localDelta
      if L.pendingAmount + amountDelta < 0 ∨ inScope < 0 then (.error .accountingUnderflow, M)
      else if inScope ≠ 0 then (.ok (), { M with pendingLocalByScope := L.pendingLocalByScope.set scope inScope })
      else (.ok (), { M with pendingLocalByScope := L.pendingLocalByScope.pop scope }) := by
  simp [adjustPendingUpperBound]

theorem adjust_run (L : DemandLedger) (scope : Scope) (amountDelta localDelta : ℤ)
    (ha : 0 ≤ L.pendingUpperBound none + amountDelta) (hl : 0 ≤ L.pendingUpperBound (some scope) + localDelta) :
    ∃ D : PyDict Scope ℤ, (adjustPendingUpperBound scope amountDelta localDelta).run L =
        (.ok (), { L with pendingAmount := L.pendingAmount + amountDelta, pendingLocalByScope := D }) ∧
      (∀ s, (D.get? s).getD 0 = L.pendingUpperBound (some s) + if s = scope then localDelta else 0) ∧
      ((∀ s v, L.pendingLocalByScope.get? s = some v → 0 < v) → ∀ s v, D.get? s = some v → 0 < v) := by
  simp only [pendingUpperBound] at ha hl
  have hneg : ¬ (L.pendingAmount + amountDelta < 0 ∨ (L.pendingLocalByScope.get? scope).getD 0 + localDelta < 0) := by
    omega
  by_cases hz : (L.pendingLocalByScope.get? scope).getD 0 + localDelta = 0
  · refine ⟨L.pendingLocalByScope.pop scope, ?_, ?_, ?_⟩
    · rw [adjust_eq, if_neg hneg, if_neg (not_not.mpr hz)]
    · intro s
      rw [PyDict.get?_pop]
      by_cases hs : s = scope
      · subst s; simp [pendingUpperBound, hz]
      · simp [pendingUpperBound, hs]
    · intro hpos s v hv
      rw [PyDict.get?_pop] at hv
      split_ifs at hv
      exact hpos s v hv
  · refine ⟨L.pendingLocalByScope.set scope ((L.pendingLocalByScope.get? scope).getD 0 + localDelta), ?_, ?_, ?_⟩
    · rw [adjust_eq, if_neg hneg, if_pos hz]
    · intro s
      rw [PyDict.get?_set]
      by_cases hs : s = scope
      · subst s; simp [pendingUpperBound]
      · simp [pendingUpperBound, hs]
    · intro hpos s v hv
      rw [PyDict.get?_set] at hv
      split_ifs at hv with hs
      · obtain rfl := Option.some.inj hv
        omega
      · exact hpos s v hv

theorem Accounted.adjust {L : DemandLedger} (h : Accounted L) (C : PyDict Key Claim) (n : ℕ) (scope : Scope)
    (a l : ℤ) (ht : C.sum (fun _ c => c.amount) = L.claims.sum (fun _ c => c.amount) + a)
    (hs : ∀ s, C.sum (fun _ c => c.localIn s) = L.claims.sum (fun _ c => c.localIn s) + if s = scope then l else 0)
    (hn : ∀ k c, C.get? k = some c → 0 ≤ c.amount ∧ 0 ≤ c.localAmount)
    (hf : ∀ k c, C.get? k = some c → c.ident < n) :
    ∃ P D, Accounted { L with claims := C, nextIdent := n, pendingAmount := P, pendingLocalByScope := D } ∧
      ∀ C' n', (adjustPendingUpperBound scope a l).run { L with claims := C', nextIdent := n' } =
        (.ok (), { L with claims := C', nextIdent := n', pendingAmount := P, pendingLocalByScope := D }) := by
  have htotal : L.pendingUpperBound none + a = C.sum (fun _ c => c.amount) := by rw [ht, h.total]
  have hscope : ∀ s, L.pendingUpperBound (some s) + (if s = scope then l else 0) = C.sum (fun _ c => c.localIn s) := by
    intro s; rw [hs, h.byScope]
  have hpos : 0 ≤ C.sum (fun _ c => c.amount) := PyDict.sum_nonneg (fun k c hk => (hn k c hk).1)
  have hpos' : ∀ s, 0 ≤ C.sum (fun _ c => c.localIn s) := by
    intro s
    apply PyDict.sum_nonneg
    intro k c hk
    unfold Claim.localIn
    split_ifs
    · exact (hn k c hk).2
    · exact le_refl 0
  have hown := hscope scope
  rw [if_pos rfl] at hown
  obtain ⟨D, hrun, hget, hD⟩ := adjust_run L scope a l (by rw [htotal]; exact hpos) (by rw [hown]; exact hpos' scope)
  refine ⟨L.pendingAmount + a, D, ⟨htotal, ?_, hD h.positive, hn, hf⟩, ?_⟩
  · intro s
    change (D.get? s).getD 0 = C.sum (fun _ c => c.localIn s)
    rw [hget s]
    exact hscope s
  · intro C' n'
    rw [adjust_eq] at hrun ⊢
    dsimp only at hrun ⊢
    split_ifs at hrun ⊢ with h1 h2
    · cases congrArg Prod.fst hrun
    · have hd := congrArg (fun r => r.2.pendingLocalByScope) hrun
      simp only at hd
      rw [hd]
    · have hd := congrArg (fun r => r.2.pendingLocalByScope) hrun
      simp only at hd
      rw [hd]

theorem localIn_add (c : Claim) (a l : ℤ) (s : Scope) :
    Claim.localIn { c with amount := c.amount + a, localAmount := c.localAmount + l } s =
      c.localIn s + if s = c.scope then l else 0 := by
  by_cases hs : c.scope = s
  · simp [Claim.localIn, hs]
  · simp [Claim.localIn, hs, Ne.symm hs]

theorem Accounted.change {L : DemandLedger} (h : Accounted L) {key : Key} {claim : Claim}
    (hk : L.claims.get? key = some claim) (a l : ℤ) (ha : 0 ≤ claim.amount + a) (hl : 0 ≤ claim.localAmount + l) :
    let C := L.claims.set key { claim with amount := claim.amount + a, localAmount := claim.localAmount + l }
    C.sum (fun _ c => c.amount) = L.claims.sum (fun _ c => c.amount) + a ∧
      (∀ s, C.sum (fun _ c => c.localIn s) = L.claims.sum (fun _ c => c.localIn s) + if s = claim.scope then l else 0) ∧
      (∀ k c, C.get? k = some c → 0 ≤ c.amount ∧ 0 ≤ c.localAmount) ∧
      ∀ k c, C.get? k = some c → c.ident < L.nextIdent := by
  refine ⟨?_, ?_, ?_, ?_⟩
  · rw [PyDict.sum_set_old _ _ hk]
    dsimp only
    omega
  · intro s
    rw [PyDict.sum_set_old _ _ hk, localIn_add]
    omega
  · intro k c hc
    rw [PyDict.get?_set] at hc
    split_ifs at hc
    · obtain rfl := Option.some.inj hc
      exact ⟨ha, hl⟩
    · exact h.nonneg k c hc
  · intro k c hc
    rw [PyDict.get?_set] at hc
    split_ifs at hc
    · obtain rfl := Option.some.inj hc
      exact h.fresh key claim hk
    · exact h.fresh k c hc

theorem Accounted.rebind {L : DemandLedger} (h : Accounted L) {key : Key} {claim : Claim}
    (hk : L.claims.get? key = some claim) (sample : Option Sampler) (baseline : ℤ × ℤ) :
    Accounted { L with claims := L.claims.set key { claim with sample, baseline } } := by
  have hset : ∀ f : Claim → ℤ, f { claim with sample, baseline } = f claim →
      (L.claims.set key { claim with sample, baseline }).sum (fun _ c => f c) = L.claims.sum (fun _ c => f c) := by
    intro f hf
    rw [PyDict.sum_set_old _ _ hk, hf]
    omega
  constructor
  · rw [hset (fun c => c.amount) rfl]
    exact h.total
  · intro s
    rw [hset (fun c => c.localIn s) rfl]
    exact h.byScope s
  · exact h.positive
  · intro k c hc
    rw [PyDict.get?_set] at hc
    split_ifs at hc
    · obtain rfl := Option.some.inj hc
      exact h.nonneg key claim hk
    · exact h.nonneg k c hc
  · intro k c hc
    rw [PyDict.get?_set] at hc
    split_ifs at hc
    · obtain rfl := Option.some.inj hc
      exact h.fresh key claim hk
    · exact h.fresh k c hc

theorem callSampler_run (reading : Reading) (L : DemandLedger) :
    (∃ b, reading = some b ∧ (callSampler reading).run L = (.ok b, L)) ∨
      (reading = none ∧ (callSampler reading).run L = (.error .samplerFailed, L)) := by
  cases reading with
  | none => exact .inr ⟨rfl, rfl⟩
  | some b => exact .inl ⟨b, rfl, rfl⟩

theorem firstBaseline_run (sample : Option Sampler) (reading : Reading) (L : DemandLedger) :
    (∃ b, (firstBaseline sample reading).run L = (.ok b, L)) ∨
      (firstBaseline sample reading).run L = (.error .samplerFailed, L) := by
  cases sample with
  | none => exact .inl ⟨(0, 0), rfl⟩
  | some _ =>
    rcases callSampler_run reading L with ⟨b, _, h⟩ | ⟨_, h⟩
    · exact .inl ⟨b, h⟩
    · exact .inr h

def Settles (op : LedgerOp) (L : DemandLedger) : Prop :=
  (∃ L', op.run L = (.ok (), L') ∧ Accounted L') ∨ ∃ e, e ≠ .accountingUnderflow ∧ op.run L = (.error e, L)

theorem add_settles {L : DemandLedger} (h : Accounted L) (key : Key) (scope : Scope) (amount localAmount : ℤ)
    (sample : Option Sampler) (reading : Reading) (ha : 0 ≤ amount) (hl : 0 ≤ localAmount) :
    Settles (.add key scope amount localAmount sample reading) L := by
  by_cases hdup : (L.claims.get? key).isSome
  · exact .inr ⟨.duplicateClaim key, by simp, by simp [LedgerOp.run, LedgerOp.body, add, hdup]⟩
  have hnone : L.claims.get? key = none := by simpa using hdup
  rcases firstBaseline_run sample reading L with ⟨b, hb⟩ | hb
  · left
    set claim : Claim := ⟨L.nextIdent, scope, amount, localAmount, sample, b⟩ with hclaim
    obtain ⟨P, D, hacc, hrun⟩ := h.adjust (L.claims.set key claim) (L.nextIdent + 1) scope amount localAmount
      (PyDict.sum_set_new _ _ hnone)
      (by
        intro s
        rw [PyDict.sum_set_new _ _ hnone]
        by_cases hs : scope = s
        · simp [hclaim, Claim.localIn, hs]
        · simp [hclaim, Claim.localIn, hs, Ne.symm hs])
      (by
        intro k c hc
        rw [PyDict.get?_set] at hc
        split_ifs at hc
        · obtain rfl := Option.some.inj hc
          exact ⟨ha, hl⟩
        · exact h.nonneg k c hc)
      (by
        intro k c hc
        rw [PyDict.get?_set] at hc
        split_ifs at hc
        · obtain rfl := Option.some.inj hc
          exact Nat.lt_succ_self _
        · exact Nat.lt_succ_of_lt (h.fresh k c hc))
    refine ⟨_, ?_, hacc⟩
    rw [← hrun]
    simp only [LedgerOp.run, LedgerOp.body, add, Raising.run_get_bind, hdup, Bool.false_eq_true, if_false,
      Raising.run_bind_ok hb, Raising.run_modify_bind, hclaim]
  · right
    refine ⟨.samplerFailed, by simp, ?_⟩
    simp only [LedgerOp.run, LedgerOp.body, add, Raising.run_get_bind, hdup, Bool.false_eq_true, if_false,
      Raising.run_bind_error hb]

theorem extend_settles {L : DemandLedger} (h : Accounted L) (key : Key) (amount localAmount : ℤ)
    (ha : 0 ≤ amount) (hl : 0 ≤ localAmount) : Settles (.extend key amount localAmount) L := by
  cases hk : L.claims.get? key with
  | none =>
    refine .inr ⟨.missingClaim key, by simp, ?_⟩
    simp only [LedgerOp.run, LedgerOp.body, extend, Raising.run_get_bind, hk, Raising.run_raise]
  | some claim =>
    left
    have hn := h.nonneg key claim hk
    obtain ⟨ht, hs, hnn, hf⟩ := h.change hk amount localAmount (by omega) (by omega)
    obtain ⟨P, D, hacc, hrun⟩ := h.adjust _ L.nextIdent claim.scope amount localAmount ht hs hnn hf
    refine ⟨_, ?_, hacc⟩
    rw [← hrun]
    simp only [LedgerOp.run, LedgerOp.body, extend, Raising.run_get_bind, hk, setClaim, Raising.run_modify_bind]

theorem releaseAmount_settles {L : DemandLedger} (h : Accounted L) (key : Key) (amount localAmount : ℤ) :
    Settles (.releaseAmount key amount localAmount) L := by
  cases hk : L.claims.get? key with
  | none =>
    refine .inr ⟨.missingClaim key, by simp, ?_⟩
    simp only [LedgerOp.run, LedgerOp.body, releaseAmount, Raising.run_get_bind, hk, Raising.run_raise]
  | some claim =>
    by_cases hneg : amount < 0 ∨ localAmount < 0
    · refine .inr ⟨.negativeRelease, by simp, ?_⟩
      simp only [LedgerOp.run, LedgerOp.body, releaseAmount, Raising.run_get_bind, hk, if_pos hneg,
        Raising.run_raise_bind]
    by_cases hover : amount > claim.amount ∨ localAmount > claim.localAmount
    · refine .inr ⟨.releaseExceedsClaim key, by simp, ?_⟩
      simp only [LedgerOp.run, LedgerOp.body, releaseAmount, Raising.run_get_bind, hk, if_neg hneg,
        if_pos hover, Raising.run_raise_bind]
    left
    obtain ⟨ht, hs, hnn, hf⟩ := h.change hk (-amount) (-localAmount) (by omega) (by omega)
    set claim' : Claim :=
      { claim with amount := claim.amount + -amount, localAmount := claim.localAmount + -localAmount }
      with hclaim'
    have hrest : ∀ C, (C = L.claims.set key claim' ∨ claim.amount + -amount = 0 ∧ claim.localAmount + -localAmount = 0 ∧
        C = (L.claims.set key claim').pop key) →
        C.sum (fun _ c => c.amount) = L.claims.sum (fun _ c => c.amount) + -amount ∧
          (∀ s, C.sum (fun _ c => c.localIn s) = L.claims.sum (fun _ c => c.localIn s) +
            if s = claim.scope then -localAmount else 0) ∧
          (∀ k c, C.get? k = some c → 0 ≤ c.amount ∧ 0 ≤ c.localAmount) ∧ ∀ k c, C.get? k = some c →
            c.ident < L.nextIdent := by
      rintro C (rfl | ⟨hz, hz', rfl⟩)
      · exact ⟨ht, hs, hnn, hf⟩
      · have hget : (L.claims.set key claim').get? key = some claim' := PyDict.get?_set_self ..
        refine ⟨?_, ?_, ?_, ?_⟩
        · rw [PyDict.sum_pop, PyDict.weight_of_get? hget, ht]
          simp only [hclaim']
          omega
        · intro s
          rw [PyDict.sum_pop, PyDict.weight_of_get? hget, hs]
          have hzero : claim'.localIn s = 0 := by
            simp only [Claim.localIn, hclaim']
            split_ifs <;> omega
          omega
        · intro k c hc
          rw [PyDict.get?_pop] at hc
          split_ifs at hc
          exact hnn k c hc
        · intro k c hc
          rw [PyDict.get?_pop] at hc
          split_ifs at hc
          exact hf k c hc
    by_cases hz : claim.amount + -amount = 0 ∧ claim.localAmount + -localAmount = 0
    · obtain ⟨ht', hs', hn', hf'⟩ := hrest _ (.inr ⟨hz.1, hz.2, rfl⟩)
      obtain ⟨P, D, hacc, hrun⟩ := h.adjust _ L.nextIdent claim.scope (-amount) (-localAmount) ht' hs' hn' hf'
      refine ⟨_, ?_, hacc⟩
      simp only [LedgerOp.run, LedgerOp.body, releaseAmount, Raising.run_get_bind, hk, if_neg hneg,
        if_neg hover, Raising.run_bind_ok (hrun L.claims L.nextIdent), setClaim,
        Raising.run_modify_bind, if_pos hz, Raising.run_modify, hclaim', sub_eq_add_neg]
    · obtain ⟨ht', hs', hn', hf'⟩ := hrest _ (.inl rfl)
      obtain ⟨P, D, hacc, hrun⟩ := h.adjust _ L.nextIdent claim.scope (-amount) (-localAmount) ht' hs' hn' hf'
      refine ⟨_, ?_, hacc⟩
      simp only [LedgerOp.run, LedgerOp.body, releaseAmount, Raising.run_get_bind, hk, if_neg hneg,
        if_neg hover, Raising.run_bind_ok (hrun L.claims L.nextIdent), setClaim,
        Raising.run_modify_bind, if_neg hz, Raising.run_pure, hclaim', sub_eq_add_neg]

theorem release_settles {L : DemandLedger} (h : Accounted L) (key : Key) : Settles (.release key) L := by
  left
  cases hk : L.claims.get? key with
  | none =>
    refine ⟨L, ?_, h⟩
    simp only [LedgerOp.run, LedgerOp.body, release, Raising.run_get_bind, Raising.run_modify_bind, hk,
      Raising.run_pure, PyDict.pop_of_get?_none hk]
  | some claim =>
    obtain ⟨P, D, hacc, hrun⟩ := h.adjust (L.claims.pop key) L.nextIdent claim.scope (-claim.amount)
      (-claim.localAmount)
      (by rw [PyDict.sum_pop, PyDict.weight_of_get? hk, sub_eq_add_neg])
      (by
        intro s
        rw [PyDict.sum_pop, PyDict.weight_of_get? hk]
        by_cases hs : claim.scope = s
        · simp [Claim.localIn, hs, sub_eq_add_neg]
        · simp [Claim.localIn, hs, Ne.symm hs])
      (by
        intro k c hc
        rw [PyDict.get?_pop] at hc
        split_ifs at hc
        exact h.nonneg k c hc)
      (by
        intro k c hc
        rw [PyDict.get?_pop] at hc
        split_ifs at hc
        exact h.fresh k c hc)
    refine ⟨_, ?_, hacc⟩
    rw [← hrun]
    simp only [LedgerOp.run, LedgerOp.body, release, Raising.run_get_bind, Raising.run_modify_bind, hk]

theorem rebase_settles {L : DemandLedger} (h : Accounted L) (key : Key) (reading : Reading) :
    Settles (.rebase key reading) L := by
  cases hk : L.claims.get? key with
  | none =>
    refine .inl ⟨L, ?_, h⟩
    simp only [LedgerOp.run, LedgerOp.body, rebase, Raising.run_get_bind, hk, Raising.run_pure]
  | some claim =>
    by_cases hsm : claim.sample.isSome
    · rcases callSampler_run reading L with ⟨b, _, hb⟩ | ⟨_, hb⟩
      · left
        refine ⟨_, ?_, h.rebind hk claim.sample b⟩
        simp only [LedgerOp.run, LedgerOp.body, rebase, Raising.run_get_bind, hk, if_pos hsm,
          Raising.run_bind_ok hb, setClaim, Raising.run_modify]
      · right
        refine ⟨.samplerFailed, by simp, ?_⟩
        simp only [LedgerOp.run, LedgerOp.body, rebase, Raising.run_get_bind, hk, if_pos hsm,
          Raising.run_bind_error hb]
    · refine .inl ⟨L, ?_, h⟩
      simp only [LedgerOp.run, LedgerOp.body, rebase, Raising.run_get_bind, hk, if_neg hsm,
        Raising.run_pure]

theorem op_settles {L : DemandLedger} (h : Accounted L) (op : LedgerOp) (hop : op.NonNegative) : Settles op L := by
  cases op with
  | add key scope amount localAmount sample reading => exact add_settles h key scope _ _ sample reading hop.1 hop.2
  | extend key amount localAmount => exact extend_settles h key _ _ hop.1 hop.2
  | releaseAmount key amount localAmount => exact releaseAmount_settles h key _ _
  | release key => exact release_settles h key
  | rebase key reading => exact rebase_settles h key reading

theorem op_accounted {L : DemandLedger} (h : Accounted L) (op : LedgerOp) (hop : op.NonNegative) :
    Accounted (op.run L).2 := by
  rcases op_settles h op hop with ⟨L', hr, hL⟩ | ⟨e, _, hr⟩
  · rw [hr]; exact hL
  · rw [hr]; exact h

theorem execute_accounted {L : DemandLedger} (h : Accounted L) (ops : List LedgerOp)
    (hops : ∀ op ∈ ops, op.NonNegative) : Accounted (execute L ops) := by
  induction ops generalizing L with
  | nil => exact h
  | cons op ops ih =>
    exact ih (op_accounted h op (hops op (by simp))) (fun o ho => hops o (List.mem_cons_of_mem _ ho))

theorem new_accounted {capacity freeFloor margin : ℤ} {L : DemandLedger}
    (h : DemandLedger.new capacity freeFloor margin = .ok L) : Accounted L := by
  unfold DemandLedger.new at h
  split_ifs at h
  obtain rfl := Except.ok.inj h
  exact ⟨rfl, fun _ => rfl, by simp, by simp, by simp⟩

theorem ledger_accounting {capacity freeFloor margin : ℤ} {L₀ : DemandLedger}
    (h₀ : DemandLedger.new capacity freeFloor margin = .ok L₀) (ops : List LedgerOp)
    (hops : ∀ op ∈ ops, op.NonNegative) :
    let L := execute L₀ ops
    L.pendingUpperBound none = L.claims.sum (fun _ c => c.amount) ∧
      (∀ s, L.pendingUpperBound (some s) = L.claims.sum (fun _ c => c.localIn s)) ∧
      (∀ s v, L.pendingLocalByScope.get? s = some v → 0 < v) ∧
      ∀ op : LedgerOp, op.NonNegative → (op.run L).1 ≠ .error .accountingUnderflow ∧
        ∀ e, (op.run L).1 = .error e → (op.run L).2 = L := by
  have h := execute_accounted (new_accounted h₀) ops hops
  refine ⟨h.total, h.byScope, h.positive, ?_⟩
  intro op hop
  rcases op_settles h op hop with ⟨L', hr, _⟩ | ⟨e, he, hr⟩
  · simp [hr]
  · simpa [hr] using he

theorem ledger_accounting_aggregate :
    let ops : List LedgerOp := [.add (7, .toolAdmission) 0 10 4 (some 1) (some (100, 40)),
      .extend (7, .toolAdmission) 5 5, .add (7, .toolAdmission) 0 1 1 none none,
      .releaseAmount (7, .toolAdmission) 20 0, .releaseAmount (7, .toolAdmission) 5 4, .rebase (7, .toolAdmission) none]
    let L := execute { capacity := 64, freeFloor := 0, margin := 0 } ops
    L.pendingUpperBound none = 10 ∧ L.pendingUpperBound (some 0) = 5 ∧
      L.pendingUpperBound none = L.claims.sum (fun _ c => c.amount) := by
  intro ops L
  exact ⟨by decide, by decide, (@ledger_accounting 64 0 0 _ rfl ops (by decide)).1⟩

end DemandLedger

end ClawBox.Admission
