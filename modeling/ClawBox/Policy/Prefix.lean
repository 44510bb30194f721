import ClawBox.Policy.Batching

namespace ClawBox.Policy

open Admission Monitor Raising

variable {G : Plant} {c : CoordId} {O : Memory} {s t : World} {L : DemandLedger} {r : AdmissionRequest}

def reserveOp (conf : Conf) (L : DemandLedger) (r : AdmissionRequest) : LedgerOp :=
  if (L.claims.get? (r.session, .toolAdmission)).isSome then .extend (r.session, .toolAdmission) r.total r.amount
  else .add (r.session, .toolAdmission) conf.scope r.total r.amount none none

def reserved (conf : Conf) (L : DemandLedger) (r : AdmissionRequest) : DemandLedger := ((reserveOp conf L r).run L).2

theorem adjust_not_missing {scope : Scope} {a l : ℤ} {L L' : DemandLedger} {e : LedgerError}
    (h : (DemandLedger.adjustPendingUpperBound scope a l).run L = (.error e, L')) : e = .accountingUnderflow := by
  rw [DemandLedger.adjust_eq] at h
  dsimp only at h
  split_ifs at h <;> simp_all

theorem reserveOp_run (conf : Conf) (hL : L.Accounted) (r : AdmissionRequest) :
    (reserveOp conf L r).run L = (.ok (), reserved conf L r) ∧ (reserved conf L r).Accounted := by
  have hop : (reserveOp conf L r).NonNegative := by
    unfold reserveOp
    split_ifs
    · exact ⟨by omega, by omega⟩
    · exact ⟨by omega, by omega⟩
  rcases DemandLedger.op_settles hL _ hop with ⟨L', hrun, hL'⟩ | ⟨e, hne, hrun⟩
  · unfold reserved
    rw [hrun]
    exact ⟨rfl, hL'⟩
  · exfalso
    apply hne
    unfold reserveOp LedgerOp.run at hrun
    split_ifs at hrun with hk
    · obtain ⟨claim, hclaim⟩ := Option.isSome_iff_exists.1 hk
      simp only [LedgerOp.body, DemandLedger.extend, run_get_bind, hclaim, DemandLedger.setClaim,
        run_modify_bind] at hrun
      exact adjust_not_missing hrun
    · simp only [LedgerOp.body, DemandLedger.add, run_get_bind, hk, Bool.false_eq_true, if_false,
        DemandLedger.firstBaseline, run_pure_bind, run_modify_bind] at hrun
      exact adjust_not_missing hrun

def limits (L : DemandLedger) : ℤ × ℤ × ℤ × Bool := (L.capacity, L.freeFloor, L.margin, L.congested)

theorem adjust_limits (scope : Scope) (a l : ℤ) (L : DemandLedger) :
    limits ((DemandLedger.adjustPendingUpperBound scope a l).run L).2 = limits L := by
  rw [DemandLedger.adjust_eq]
  dsimp only
  split_ifs <;> rfl

theorem reserved_limits (conf : Conf) (L : DemandLedger) (r : AdmissionRequest) :
    limits (reserved conf L r) = limits L := by
  unfold reserved reserveOp LedgerOp.run
  split_ifs with hk
  · obtain ⟨claim, hclaim⟩ := Option.isSome_iff_exists.1 hk
    simp only [LedgerOp.body, DemandLedger.extend, run_get_bind, hclaim, DemandLedger.setClaim, run_modify_bind]
    exact adjust_limits _ _ _ _
  · simp only [LedgerOp.body, DemandLedger.add, run_get_bind, hk, Bool.false_eq_true, if_false,
      DemandLedger.firstBaseline, run_pure_bind, run_modify_bind]
    exact adjust_limits _ _ _ _

theorem charge_grown {m : Measured} {k : Key} {x : Claim} {v : ℤ × ℤ} {a l : ℤ} (ha : 0 ≤ a) (hl : 0 ≤ l)
    (hv : charge m k x = some v) :
    ∃ w, charge m k { x with amount := x.amount + a, localAmount := x.localAmount + l } = some w ∧
      (v.1 ≤ w.1 ∧ w.1 ≤ v.1 + a) ∧ v.2 ≤ w.2 ∧ w.2 ≤ v.2 + l := by
  unfold charge at hv ⊢
  cases hm : m.get? k with
  | none =>
    simp only [hm] at hv
    obtain rfl := Option.some.inj hv
    refine ⟨_, rfl, ⟨?_, ?_⟩, ?_, ?_⟩ <;> dsimp only <;> omega
  | some y =>
    simp only [hm] at hv ⊢
    split_ifs at hv ⊢
    · obtain rfl := Option.some.inj hv
      refine ⟨_, rfl, ⟨?_, ?_⟩, ?_, ?_⟩ <;> dsimp only <;> omega
    · obtain ⟨z, hz, rfl⟩ := Option.map_eq_some_iff.1 hv
      rw [hz]
      refine ⟨_, rfl, ⟨?_, ?_⟩, ?_, ?_⟩ <;> dsimp only <;> omega

theorem demand_reserved (O : Memory) (conf : Conf) (hL : L.Accounted) (r : AdmissionRequest) (scope : Scope) :
    ((O.demand L scope).1 ≤ (O.demand (reserved conf L r) scope).1 ∧
      (O.demand (reserved conf L r) scope).1 ≤ (O.demand L scope).1 + r.total) ∧
    (O.demand L scope).2 ≤ (O.demand (reserved conf L r) scope).2 ∧
      (O.demand (reserved conf L r) scope).2 ≤ (O.demand L scope).2 + r.amount := by
  obtain ⟨e1, e2⟩ := DemandLedger.pendingFromObservation_eq (O.pending_eq L scope)
  obtain ⟨d1, d2⟩ := DemandLedger.pendingFromObservation_eq (O.pending_eq (reserved conf L r) scope)
  have hrun := (reserveOp_run conf hL r).1
  unfold reserveOp at hrun
  split_ifs at hrun with hk
  · obtain ⟨x, hx, hclaims⟩ := DemandLedger.extend_ok hrun
    obtain ⟨v, hv⟩ := O.charge_isSome (r.session, .toolAdmission) x
    obtain ⟨w, hw, ⟨h1, h2⟩, h3, h4⟩ := charge_grown (a := r.total) (l := r.amount) (by omega) (by omega) hv
    rw [d1, d2, e1, e2, hclaims, PyDict.sum_set_old _ _ hx, PyDict.sum_set_old _ _ hx]
    simp only [hv, hw, Option.getD_some]
    split_ifs
    · omega
    · omega
  · obtain ⟨hnone, b, hclaims⟩ := DemandLedger.add_ok hrun
    obtain ⟨v, hv⟩ := O.charge_isSome (r.session, .toolAdmission)
      ⟨L.nextIdent, conf.scope, r.total, r.amount, none, b⟩
    have hbounds := charge_bounds ⟨by dsimp only; omega, by dsimp only; omega⟩ (O.pending.property _) hv
    have hpos := charge_nonneg (x := ⟨L.nextIdent, conf.scope, r.total, r.amount, none, b⟩)
      ⟨by dsimp only; omega, by dsimp only; omega⟩ hv
    rw [d1, d2, e1, e2, hclaims, PyDict.sum_set_new _ _ hnone, PyDict.sum_set_new _ _ hnone]
    simp only [hv, Option.getD_some]
    dsimp only at hbounds
    split_ifs
    · omega
    · omega

structure QueueOk (C : Coordinator) : Prop where
  nodup : C.waiters.Nodup
  progress : ∀ k r, (C.progressWaiters.get? k).isSome → C.waiterRequests.get? k = some r →
    r.waitClass ≠ .create ∧ r.capacityClaim = false

theorem QueueOk.enqueued {C : Coordinator} (h : QueueOk C) {k : Ticket} (hk : k ∉ C.waiters)
    (hnew : C.progressWaiters.get? k = none) (r : AdmissionRequest) : QueueOk (C.enqueued k r) where
  nodup := by
    simp only [Coordinator.enqueued]
    rw [List.nodup_append]
    refine ⟨h.nodup, by simp, ?_⟩
    rintro a ha b hb rfl
    rw [List.mem_singleton] at hb
    exact hk (hb ▸ ha)
  progress j q hj hq := by
    simp only [Coordinator.enqueued, PyDict.get?_set] at hj hq
    split_ifs at hq with hjk
    · obtain rfl := Option.some.inj hq
      subst hjk
      split_ifs at hj with hp
      · exact ⟨hp.1, by simpa using hp.2⟩
      · rw [hnew] at hj
        cases hj
    · split_ifs at hj with hp
      · rw [PySet.add, PyDict.get?_set_ne _ _ hjk] at hj
        exact h.progress j q hj hq
      · exact h.progress j q hj hq

structure Committed (G : Plant) (c : CoordId) (k : Ticket) (r : AdmissionRequest) (s t : World) : Prop where
  demand : t.demand = reserved (G.coord c) s.demand r
  capacity : t.capacity c = s.capacity c
  resident : (t.coords c).residentCapacityClaims = (s.coords c).residentCapacityClaims
  reservations : (t.coords c).reservations.entries ≠ []
  waiters : (t.coords c).waiters = (s.coords c).waiters.erase k

theorem entries_set_ne_nil {κ ν : Type} [DecidableEq κ] (d : PyDict κ ν) (k : κ) (v : ν) : (d.set k v).entries ≠ [] :=
  List.ne_nil_of_mem (PyDict.mem_of_get? (PyDict.get?_set_self d k v))

theorem onLedger_ok {x : LedgerM Unit} {L : DemandLedger} {s : World} (h : x.run s.demand = (.ok (), L)) :
    (onLedger x).run s = (.ok (), { s with demand := L }) := by
  have hx : x s.demand = (.ok (), L) := h
  simp only [onLedger, run]
  rw [hx]

theorem reserve_signal (hcap : r.capacityClaim = false) (v : World) :
    ∃ t, (do
        Raising.modify fun s => s.setCoord c ((s.coords c).reserve r)
        signalAdmissionWaiters c : Step Unit).run v = (.ok (), t) ∧ t.demand = v.demand ∧ t.capacity c = v.capacity c ∧
      (t.coords c).residentCapacityClaims = (v.coords c).residentCapacityClaims ∧
      (t.coords c).reservations.entries ≠ [] ∧ (t.coords c).waiters = (v.coords c).waiters := by
  refine ⟨_, rfl, rfl, ?_, ?_, ?_, ?_⟩
  · simp [World.capacity, World.setCoord, Coordinator.reserve, hcap]
  · simp [World.setCoord, Coordinator.reserve, hcap]
  · simp only [World.setCoord, Coordinator.reserve, hcap, Bool.false_eq_true, if_false, Function.update_self]
    exact entries_set_ne_nil _ _ _
  · simp [World.setCoord, Coordinator.reserve, hcap]

theorem commit_tool {k : Ticket} (hL : s.demand.Accounted) (hk : k ∈ (s.coords c).waiters)
    (htool : r.waitClass = .toolAdmission) (hcap : r.capacityClaim = false) :
    ∃ t, (commit (G.coord c) c k r none).run s = (.ok (), t) ∧ Committed G c k r s t := by
  have hrun := (reserveOp_run (G.coord c) hL r).1
  unfold reserveOp LedgerOp.run at hrun
  obtain ⟨t, ht, hdemand, hcapacity, hresident, hreservations, hwaiters⟩ := reserve_signal (c := c) hcap
    { s.setCoord c ((s.coords c).drop k) with demand := reserved (G.coord c) s.demand r }
  refine ⟨t, ?_, hdemand, ?_, ?_, hreservations, ?_⟩
  · unfold commit
    rw [run_get_bind, if_neg (not_not.2 hk)]
    simp only [htool, onCoord, run_modify_bind, run_get_bind]
    have hnot : ¬((G.coord c).residentCapacityAccounting = true ∧ WaitClass.toolAdmission = .create) := by simp
    split_ifs at hrun with hx
    · have hok : (onLedger (DemandLedger.extend (r.session, .toolAdmission) r.total r.amount)).run
          (s.setCoord c ((s.coords c).drop k)) = (.ok (), _) := onLedger_ok hrun
      rw [if_pos ⟨trivial, hx⟩, run_bind_ok hok, if_neg hnot]
      exact ht
    · have hok :
          (onLedger (DemandLedger.add (r.session, .toolAdmission) (G.coord c).scope r.total r.amount none none)).run
          (s.setCoord c ((s.coords c).drop k)) = (.ok (), _) := onLedger_ok hrun
      rw [if_neg (fun h => hx h.2), if_pos trivial, run_bind_ok hok, if_neg hnot]
      exact ht
  · rw [hcapacity]
    simp [World.capacity, World.setCoord, Coordinator.drop]
  · rw [hresident]
    simp [World.setCoord, Coordinator.drop]
  · rw [hwaiters]
    simp [World.setCoord, Coordinator.drop]

def toolCheck (amount total : ℕ) (batch : Bool) (o : Observations) : Check :=
  { amount := amount, existingProgress := true, total := some total, firstBudgetBlockerOnly := batch
    observations := o, decides := true }

variable {answers : (q : (sig G).Ask) → (sig G).Ans q} {o : Observations}

def Passes (answers : (q : (sig G).Ask) → (sig G).Ans q) (c : CoordId) (o : Observations) (amount total : ℕ)
    (batch : Bool) (s t : World) : Prop :=
  ∃ f, (pressureReasons c (toolCheck amount total batch o) : M G _).solo answers s = some (.ok ([], f), t)

def InTurn (answers : (q : (sig G).Ask) → (sig G).Ans q) (c : CoordId) (o : Observations) :
    World → List (Ticket × AdmissionRequest) → Prop
  | _, [] => True
  | s, (k, r) :: rest => ∃ t u, Passes answers c o r.amount r.total false s t ∧
      (commit (G.coord c) c k r none).run t = (.ok (), u) ∧ InTurn answers c o u rest

def earlierTools (C : Coordinator) (k : Ticket) : List (Ticket × AdmissionRequest) :=
  (C.waiters.takeWhile (· ≠ k)).filterMap fun j =>
    match C.waiterRequests.get? j with
    | none => none
    | some r => if r.waitClass = .toolAdmission ∧ (C.progressWaiters.get? j).isSome then some (j, r) else none

def Ahead (G : Plant) (c : CoordId) (O : Memory) (capacity : ℤ) (budget : ℤ) :
    DemandLedger → List AdmissionRequest → Prop
  | _, [] => True
  | L, r :: rest =>
    (r.amount = 0 ∨ max O.physical.1 capacity + ((O.demand L (G.coord c).scope).2 + r.amount) +
      (G.coord c).operationHeadroom ≤ budget) ∧ Ahead G c O capacity budget (reserved (G.coord c) L r) rest

theorem inflight_tool (htool : r.waitClass = .toolAdmission) (claims : PyDict Key Claim) :
    r.inflight claims = false := by
  simp [AdmissionRequest.inflight, htool]

theorem prefixWalk_covers {claims : PyDict Key Claim} {C : Coordinator} {k : Ticket}
    (hk : C.waiterRequests.get? k = some r) (htool : r.waitClass = .toolAdmission)
    (hprogress : (C.progressWaiters.get? k).isSome) {amount total : ℕ} :
    ∀ (l : List Ticket) (count a b : ℕ), prefixWalk claims C k l count a b = .ok (some (amount, total)) →
      a + r.amount + ((earlierTools { C with waiters := l } k).map fun e => e.2.amount).sum ≤ amount ∧
        b + r.total + ((earlierTools { C with waiters := l } k).map fun e => e.2.total).sum ≤ total := by
  intro l
  induction l with
  | nil =>
    intro count a b h
    simp [prefixWalk] at h
  | cons j l ih =>
    intro count a b h
    unfold prefixWalk at h
    by_cases hjk : j = k
    · subst hjk
      have hcond : ¬(r.inflight claims = true ∨ (C.progressWaiters.get? j).isNone = true) := by
        rw [inflight_tool htool]
        simp [Option.isSome_iff_ne_none.1 hprogress]
      simp only [hk, if_neg hcond, if_true] at h
      split_ifs at h
      · cases Except.ok.inj h
      · obtain ⟨rfl, rfl⟩ := Prod.mk.inj (Option.some.inj (Except.ok.inj h))
        simp [earlierTools]
    · cases hj : C.waiterRequests.get? j with
      | none => simp [hj] at h
      | some q =>
        have hsplit : earlierTools { C with waiters := j :: l } k =
            (if q.waitClass = .toolAdmission ∧ (C.progressWaiters.get? j).isSome then [(j, q)] else []) ++
              earlierTools { C with waiters := l } k := by
          unfold earlierTools
          simp only [List.takeWhile_cons, hjk, ne_eq, not_false_eq_true, decide_true, if_true, List.filterMap_cons, hj]
          split_ifs <;> rfl
        rw [hsplit]
        simp only [hj] at h
        split_ifs at h with hskip hcount
        rotate_left
        · cases Except.ok.inj h
        rotate_left
        · have hnot : ¬(q.waitClass = .toolAdmission ∧ (C.progressWaiters.get? j).isSome) := by
            rintro ⟨hq, hp⟩
            rw [inflight_tool hq, Option.isNone_iff_eq_none] at hskip
            rcases hskip with h' | h'
            · cases h'
            · rw [h'] at hp
              cases hp
          rw [if_neg hnot]
          exact ih count a b h
        · have := ih (count + 1) (a + q.amount) (b + q.total) h
          split_ifs
          · simp only [List.map_append, List.map_cons, List.map_nil, List.sum_append, List.sum_cons, List.sum_nil]
            omega
          · simp only [List.nil_append]
            omega

theorem prefixWalk_mem {claims : PyDict Key Claim} {C : Coordinator} {k : Ticket} {amount total : ℕ} :
    ∀ (l : List Ticket) (count a b : ℕ), prefixWalk claims C k l count a b = .ok (some (amount, total)) → k ∈ l := by
  intro l
  induction l with
  | nil =>
    intro count a b h
    simp [prefixWalk] at h
  | cons j l ih =>
    intro count a b h
    by_cases hjk : j = k
    · exact hjk ▸ List.mem_cons_self
    apply List.mem_cons_of_mem
    unfold prefixWalk at h
    cases hj : C.waiterRequests.get? j with
    | none => simp [hj] at h
    | some q =>
      simp only [hj, if_neg hjk] at h
      split_ifs at h
      · exact ih _ _ _ h
      · cases Except.ok.inj h
      · exact ih _ _ _ h

theorem within_tool {amount total : ℕ} {batch : Bool} :
    Within G c s.demand (toolCheck amount total batch o) (exactSeen G c O (toolCheck amount total batch o) s) ↔
      (amount = 0 ∨ max O.physical.1 (s.capacity c) + ((O.demand s.demand (G.coord c).scope).2 + amount) +
          (G.coord c).operationHeadroom ≤ effectiveBudget (G.coord c) true O.physical.1 (s.coords c).reservations) ∧
        (G.coord c).emergencyFree ≤ O.physical.2 ∧
        O.globalMemory.1 + (O.demand s.demand (G.coord c).scope).1 + s.demand.margin + (G.coord c).operationHeadroom +
          total ≤ s.demand.capacity ∧
        s.demand.freeFloor ≤ O.globalMemory.2 := by
  constructor
  · rintro ⟨h1, h2, h3, h4⟩
    refine ⟨?_, h2, h3, h4⟩
    rcases h1 with h1 | h1
    · right
      simpa [localCharge, exactSeen, seenFigures, capacityFor, budgetFor, toolCheck, Check.growth] using h1
    · exact .inl h1.2
  · rintro ⟨h1, h2, h3, h4⟩
    refine ⟨?_, h2, h3, h4⟩
    rcases h1 with h1 | h1
    · exact .inr ⟨rfl, h1⟩
    · left
      simpa [localCharge, exactSeen, seenFigures, capacityFor, budgetFor, toolCheck, Check.growth] using h1

theorem Passes.spec {amount total : ℕ} {batch : Bool} (hr : (G.coord c).residentCapacityAccounting = false)
    (hseen : Seen O c answers o) (hL : s.demand.Accounted) (h : Passes answers c o amount total batch s t) :
    Quiet answers O ∧ Within G c s.demand (toolCheck amount total batch o)
    (exactSeen G c O (toolCheck amount total batch o) s) ∧
      Calmed s t ∧ t.demand.congested = false := by
  obtain ⟨f, hf⟩ := h
  have hends := ends_pressureReasons (q := toolCheck amount total batch o) hr hseen hL
  exact (hends.post hf).1 rfl

theorem passes_iff {amount total : ℕ} {batch : Bool} (hr : (G.coord c).residentCapacityAccounting = false)
    (hseen : Seen O c answers o) (hquiet : Quiet answers O) (hL : s.demand.Accounted)
    (hc : s.demand.congested = false) :
    Passes answers c o amount total batch s t ↔
      Within G c s.demand (toolCheck amount total batch o) (exactSeen G c O (toolCheck amount total batch o) s) ∧
      t = s := by
  obtain ⟨r, u, hrun, hv⟩ := ends_pressureReasons (q := toolCheck amount total batch o) hr hseen hL
  constructor
  · intro h
    have hw := (h.spec hr hseen hL).2.1
    obtain ⟨f, hf⟩ := h
    rw [hrun] at hf
    obtain ⟨rfl, rfl⟩ := Prod.mk.inj (Option.some.inj hf)
    exact ⟨hw, (hv.2 hquiet hc hw).2⟩
  · rintro ⟨hw, rfl⟩
    cases r with
    | error e => exact absurd hquiet hv
    | ok x =>
      obtain ⟨reasons, f⟩ := x
      obtain ⟨rfl, rfl⟩ := hv.2 hquiet hc hw
      exact ⟨f, hrun⟩

def laterBudget (conf : Conf) (used : ℤ) : ℕ := if conf.budget ≤ used then conf.progressBudget else conf.budget

theorem effectiveBudget_reserved {conf : Conf} {used : ℤ} {d : PyDict Session ℤ} (h : d.entries ≠ []) :
    effectiveBudget conf true used d = laterBudget conf used := by
  unfold effectiveBudget laterBudget
  simp [h]

theorem Ahead.of_sum {capacity budget : ℤ} (rs : List AdmissionRequest) : ∀ L : DemandLedger, L.Accounted →
    ((rs.map fun r => r.amount).sum = 0 ∨ max O.physical.1 capacity + ((O.demand L (G.coord c).scope).2 +
      (rs.map fun r => r.amount).sum) + (G.coord c).operationHeadroom ≤ budget) → Ahead G c O capacity budget L rs := by
  induction rs with
  | nil =>
    intro L _ _
    trivial
  | cons r rs ih =>
    intro L hL h
    have hgrow := (demand_reserved O (G.coord c) hL r (G.coord c).scope).2
    simp only [List.map_cons, List.sum_cons, Nat.cast_add] at h
    refine ⟨?_, ih _ (reserveOp_run (G.coord c) hL r).2 ?_⟩
    · rcases h with h | h
      · exact .inl (by omega)
      · exact .inr (by omega)
    · rcases h with h | h
      · exact .inl (by omega)
      · exact .inr (by omega)

theorem inTurn_iff (hr : (G.coord c).residentCapacityAccounting = false) (hseen : Seen O c answers o)
    (hquiet : Quiet answers O) (havailable : (G.coord c).emergencyFree ≤ O.physical.2)
    (l : List (Ticket × AdmissionRequest)) :
    ∀ s : World, s.demand.Accounted → s.demand.congested = false → s.demand.freeFloor ≤ O.globalMemory.2 →
      (s.coords c).reservations.entries ≠ [] →
      (∀ e ∈ l, e.2.waitClass = .toolAdmission ∧ e.2.capacityClaim = false ∧ e.1 ∈ (s.coords c).waiters) →
      (l.map Prod.fst).Nodup →
      O.globalMemory.1 + (O.demand s.demand (G.coord c).scope).1 + s.demand.margin + (G.coord c).operationHeadroom +
        (l.map fun e => e.2.total).sum ≤ s.demand.capacity →
      (InTurn answers c o s l ↔
        Ahead G c O (s.capacity c) (laterBudget (G.coord c) O.physical.1) s.demand (l.map Prod.snd)) := by
  induction l with
  | nil =>
    intro s _ _ _ _ _ _ _
    exact Iff.rfl
  | cons e l ih =>
    intro s hL hc hfloor hres hl hnd hglobal
    obtain ⟨k, r⟩ := e
    obtain ⟨htool, hcap, hk⟩ : r.waitClass = .toolAdmission ∧ r.capacityClaim = false ∧ k ∈ (s.coords c).waiters :=
      hl (k, r) List.mem_cons_self
    rw [List.map_cons, List.nodup_cons] at hnd
    simp only [List.map_cons, List.sum_cons, Nat.cast_add] at hglobal
    obtain ⟨t, hcommit, hdone⟩ := commit_tool (G := G) hL hk htool hcap
    obtain ⟨-, hL'⟩ := reserveOp_run (G.coord c) hL r
    have hlimits := reserved_limits (G.coord c) s.demand r
    simp only [limits, Prod.mk.injEq] at hlimits
    obtain ⟨hcapacity, hfloor', hmargin, hcongested⟩ := hlimits
    have hgrow := (demand_reserved O (G.coord c) hL r (G.coord c).scope).1
    have hrest := ih t (hdone.demand ▸ hL') (by rw [hdone.demand, hcongested, hc])
      (by rw [hdone.demand, hfloor']; exact hfloor)
      hdone.reservations
      (by
        intro e he
        obtain ⟨h1, h2, h3⟩ := hl e (List.mem_cons_of_mem _ he)
        refine ⟨h1, h2, ?_⟩
        rw [hdone.waiters]
        refine (List.mem_erase_of_ne ?_).2 h3
        intro hek
        have hmem : e.1 ∈ l.map Prod.fst := List.mem_map_of_mem he
        exact hnd.1 (hek ▸ hmem))
      hnd.2 (by
        rw [hdone.demand, hmargin, hcapacity]
        omega)
    have hlocal : Passes answers c o r.amount r.total false s s ↔ (r.amount = 0 ∨ max O.physical.1 (s.capacity c) +
        ((O.demand s.demand (G.coord c).scope).2 + r.amount) + (G.coord c).operationHeadroom ≤
          laterBudget (G.coord c) O.physical.1) := by
      rw [passes_iff hr hseen hquiet hL hc, within_tool, effectiveBudget_reserved hres]
      constructor
      · exact fun h => h.1.1
      · exact fun h => ⟨⟨h, havailable, by omega, hfloor⟩, rfl⟩
    rw [hdone.demand, hdone.capacity] at hrest
    constructor
    · rintro ⟨u, v, hpass, hrun, hin⟩
      obtain ⟨hw, rfl⟩ := (passes_iff hr hseen hquiet hL hc).1 hpass
      rw [hcommit] at hrun
      obtain ⟨-, rfl⟩ := Prod.mk.inj hrun
      exact ⟨hlocal.1 hpass, hrest.1 hin⟩
    · rintro ⟨hfits, hahead⟩
      exact ⟨s, t, hlocal.2 hfits, hcommit, hrest.2 hahead⟩

theorem passes_resident {amount total : ℕ} {batch : Bool} (hr : (G.coord c).residentCapacityAccounting = true) :
    Passes answers c o amount total batch s t ↔
      ((s.coords c).residentCapacityClaims.sum fun _ v => v) + amount ≤ (G.coord c).budget ∧ t = s := by
  have hrun : (pressureReasons c (toolCheck amount total batch o) : M G _).solo answers s =
      some (.ok (if ((s.coords c).residentCapacityClaims.sum fun _ v => v) + amount > (G.coord c).budget
        then [.residentCapacityBudget] else [], default), s) := by
    unfold pressureReasons
    rw [if_pos hr]
    rfl
  unfold Passes
  rw [hrun]
  constructor
  · rintro ⟨f, hf⟩
    obtain ⟨h1, rfl⟩ := Prod.mk.inj (Option.some.inj hf)
    obtain ⟨h2, -⟩ := Prod.mk.inj (Except.ok.inj h1)
    refine ⟨?_, rfl⟩
    split_ifs at h2
    omega
  · rintro ⟨hle, rfl⟩
    rw [if_neg (by omega)]
    exact ⟨_, rfl⟩

theorem inTurn_resident (hr : (G.coord c).residentCapacityAccounting = true) (l : List (Ticket × AdmissionRequest)) :
    ∀ s : World, s.demand.Accounted →
      (∀ e ∈ l, e.2.waitClass = .toolAdmission ∧ e.2.capacityClaim = false ∧ e.1 ∈ (s.coords c).waiters) →
      (l.map Prod.fst).Nodup →
      ((s.coords c).residentCapacityClaims.sum fun _ v => v) + (l.map fun e => e.2.amount).sum ≤ (G.coord c).budget →
      InTurn answers c o s l := by
  induction l with
  | nil =>
    intro s _ _ _ _
    trivial
  | cons e l ih =>
    intro s hL hl hnd hsum
    obtain ⟨k, r⟩ := e
    obtain ⟨htool, hcap, hk⟩ : r.waitClass = .toolAdmission ∧ r.capacityClaim = false ∧ k ∈ (s.coords c).waiters :=
      hl (k, r) List.mem_cons_self
    rw [List.map_cons, List.nodup_cons] at hnd
    simp only [List.map_cons, List.sum_cons, Nat.cast_add] at hsum
    obtain ⟨t, hcommit, hdone⟩ := commit_tool (G := G) hL hk htool hcap
    refine ⟨s, t, (passes_resident hr).2 ⟨by omega, rfl⟩, hcommit, ih t ?_ ?_ hnd.2 ?_⟩
    · rw [hdone.demand]
      exact (reserveOp_run (G.coord c) hL r).2
    · intro e he
      obtain ⟨h1, h2, h3⟩ := hl e (List.mem_cons_of_mem _ he)
      refine ⟨h1, h2, ?_⟩
      rw [hdone.waiters]
      refine (List.mem_erase_of_ne ?_).2 h3
      intro hek
      have hmem : e.1 ∈ l.map Prod.fst := List.mem_map_of_mem he
      exact hnd.1 (hek ▸ hmem)
    · rw [hdone.resident]
      omega

theorem earlierTools_spec {C : Coordinator} (h : QueueOk C) {k : Ticket} :
    (∀ e ∈ earlierTools C k, e.2.waitClass = .toolAdmission ∧ e.2.capacityClaim = false ∧ e.1 ∈ C.waiters.erase k) ∧
      ((earlierTools C k).map Prod.fst).Nodup := by
  have hmem : ∀ e ∈ earlierTools C k, e.1 ∈ C.waiters.takeWhile (· ≠ k) ∧ e.2.waitClass = .toolAdmission ∧
      (C.progressWaiters.get? e.1).isSome ∧ C.waiterRequests.get? e.1 = some e.2 := by
    intro e he
    obtain ⟨j, hj, hje⟩ := List.mem_filterMap.1 he
    cases hr : C.waiterRequests.get? j with
    | none => simp [hr] at hje
    | some r =>
      simp only [hr] at hje
      split_ifs at hje with hp
      obtain rfl := Option.some.inj hje
      exact ⟨hj, hp.1, hp.2, hr⟩
  constructor
  · intro e he
    obtain ⟨hj, htool, hp, hr⟩ := hmem e he
    refine ⟨htool, (h.progress e.1 e.2 hp hr).2, ?_⟩
    have hne : e.1 ≠ k := by simpa using List.all_eq_true.1 List.all_takeWhile e.1 hj
    exact (List.mem_erase_of_ne hne).2 (List.takeWhile_subset _ hj)
  · have hsub : ((earlierTools C k).map Prod.fst).Sublist (C.waiters.takeWhile (· ≠ k)) := by
      unfold earlierTools
      induction C.waiters.takeWhile (· ≠ k) with
      | nil => exact List.Sublist.refl _
      | cons j l ih =>
        rw [List.filterMap_cons]
        cases C.waiterRequests.get? j with
        | none => exact ih.cons j
        | some r =>
          dsimp only
          split_ifs
          · exact ih.cons_cons j
          · exact ih.cons j
    exact hsub.nodup ((List.takeWhile_sublist _).nodup h.nodup)

/-- A later Tool request that a batch lets commit leaves room for the earlier ones exactly when the budget does not
shrink under them, or they fit the smaller one as well. -/
theorem earlier_tools_fit_iff {k head : Ticket} {amount total : ℕ} {u : World} (hL : s.demand.Accounted)
    (hqueue : QueueOk (s.coords c)) (hseen : Seen O c answers o) (hk : (s.coords c).waiterRequests.get? k = some r)
    (htool : r.waitClass = .toolAdmission)
    (hbatch : feasibleProgressPrefix c s k (some head) = .ok (some (amount, total)))
    (hpass : Passes answers c o amount total true s t) (hcommit : (commit (G.coord c) c k r none).run t = (.ok (), u)) :
    InTurn answers c o u (earlierTools (s.coords c) k) ↔
      (G.coord c).residentCapacityAccounting = true ∨ (s.coords c).reservations.entries ≠ [] ∨
        (G.coord c).budget ≤ O.physical.1 ∨
        Ahead G c O (s.capacity c) (G.coord c).budget
          (reserved (G.coord c) { s.demand with congested := false } r)
          ((earlierTools (s.coords c) k).map Prod.snd) := by
  obtain ⟨hearlier, hnd⟩ := earlierTools_spec hqueue (k := k)
  have hhead : ¬((s.coords c).progressWaiters.get? k).isNone = true := by
    intro hn
    simp only [feasibleProgressPrefix, hn, if_true] at hbatch
    cases Except.ok.inj hbatch
  have hprogress : ((s.coords c).progressWaiters.get? k).isSome := by simpa [Option.isSome_iff_ne_none] using hhead
  have hwalk : prefixWalk s.demand.claims (s.coords c) k (s.coords c).waiters 0 0 0 = .ok (some (amount, total)) := by
    simp only [feasibleProgressPrefix] at hbatch
    rw [if_neg hhead] at hbatch
    cases hr : (s.coords c).waiterRequests.get? head with
    | none => simp [hr] at hbatch
    | some h =>
      simp only [hr] at hbatch
      split_ifs at hbatch
      · cases Except.ok.inj hbatch
      · exact hbatch
  obtain ⟨hamount, htotal⟩ := prefixWalk_covers hk htool hprogress _ 0 0 0 hwalk
  have hcap := (hqueue.progress k r hprogress hk).2
  have hkw : k ∈ (s.coords c).waiters := prefixWalk_mem _ 0 0 0 hwalk
  change 0 + r.amount + ((earlierTools (s.coords c) k).map fun e => e.2.amount).sum ≤ amount at hamount
  change 0 + r.total + ((earlierTools (s.coords c) k).map fun e => e.2.total).sum ≤ total at htotal
  cases hres : (G.coord c).residentCapacityAccounting with
  | true =>
    obtain ⟨hle, rfl⟩ := (passes_resident hres).1 hpass
    obtain ⟨v, hrun, hdone⟩ := commit_tool (G := G) hL hkw htool hcap
    rw [hcommit] at hrun
    obtain ⟨-, rfl⟩ := Prod.mk.inj hrun
    refine ⟨fun _ => .inl rfl, fun _ => inTurn_resident hres _ u ?_ ?_ hnd ?_⟩
    · rw [hdone.demand]
      exact (reserveOp_run (G.coord c) hL r).2
    · rw [hdone.waiters]
      exact hearlier
    · rw [hdone.resident]
      omega
  | false =>
    obtain ⟨hquiet, hwithin, hcalm, hcongested⟩ := hpass.spec hres hseen hL
    obtain ⟨hlocal, havailable, hglobal, hfloor⟩ := within_tool.1 hwithin
    have hdemand : t.demand = { s.demand with congested := false } := by
      have := congrArg World.demand (show t = _ from hcalm)
      rw [hcongested] at this
      exact this
    have hcoords : t.coords = s.coords := by
      have := congrArg World.coords (show t = _ from hcalm)
      exact this
    have hLt : t.demand.Accounted := by
      rw [hdemand]
      exact ⟨hL.total, hL.byScope, hL.positive, hL.nonneg, hL.fresh⟩
    obtain ⟨v, hrun, hdone⟩ := commit_tool (G := G) hLt (hcoords ▸ hkw) htool hcap
    rw [hcommit] at hrun
    obtain ⟨-, rfl⟩ := Prod.mk.inj hrun
    obtain ⟨-, hLu⟩ := reserveOp_run (G.coord c) hLt r
    have hlimits := reserved_limits (G.coord c) t.demand r
    simp only [limits, Prod.mk.injEq] at hlimits
    obtain ⟨hcapacity, hfloor', hmargin, hcongested'⟩ := hlimits
    have hgrow := demand_reserved O (G.coord c) hLt r (G.coord c).scope
    have hsame : O.demand t.demand (G.coord c).scope = O.demand s.demand (G.coord c).scope := by rw [hdemand]; rfl
    have hcapacityClaims : u.capacity c = s.capacity c := by
      rw [hdone.capacity, World.capacity, World.capacity, hcoords]
    have hmain := inTurn_iff hres hseen hquiet havailable (earlierTools (s.coords c) k) u (hdone.demand ▸ hLu)
      (by rw [hdone.demand, hcongested', hcongested]) (by rw [hdone.demand, hfloor', hdemand]; exact hfloor)
      hdone.reservations (by rw [hdone.waiters, hcoords]; exact hearlier) hnd
      (by
        rw [hdone.demand, hmargin, hcapacity]
        rw [hsame] at hgrow
        have hm : t.demand.margin = s.demand.margin := by rw [hdemand]
        have hx : t.demand.capacity = s.demand.capacity := by rw [hdemand]
        omega)
    rw [hmain, hcapacityClaims, hdone.demand, ← hdemand]
    -- the batch was checked against the budget that the earlier requests now meet, unless it shrank
    have hsame' : effectiveBudget (G.coord c) true O.physical.1 (s.coords c).reservations =
        laterBudget (G.coord c) O.physical.1 →
        Ahead G c O (s.capacity c) (laterBudget (G.coord c) O.physical.1) (reserved (G.coord c) t.demand r)
          ((earlierTools (s.coords c) k).map Prod.snd) := by
      intro hbudget
      rw [hbudget] at hlocal
      apply Ahead.of_sum _ _ hLu
      rw [List.map_map]
      rw [hsame] at hgrow
      change ((earlierTools (s.coords c) k).map fun e => e.2.amount).sum = 0 ∨
        max O.physical.1 (s.capacity c) + ((O.demand (reserved (G.coord c) t.demand r) (G.coord c).scope).2 +
          ((earlierTools (s.coords c) k).map fun e => e.2.amount).sum) + (G.coord c).operationHeadroom ≤ _
      rcases hlocal with h | h
      · exact .inl (by omega)
      · exact .inr (by omega)
    constructor
    · intro h
      by_cases hused : (G.coord c).budget ≤ O.physical.1
      · exact .inr (.inr (.inl hused))
      · rw [laterBudget, if_neg hused] at h
        exact .inr (.inr (.inr h))
    · rintro (h | h | h | h)
      · cases h
      · exact hsame' (effectiveBudget_reserved h)
      · apply hsame'
        simp [effectiveBudget, laterBudget, h]
      · by_cases hused : (G.coord c).budget ≤ O.physical.1
        · apply hsame'
          simp [effectiveBudget, laterBudget, hused]
        · rw [laterBudget, if_neg hused]
          exact h

def examplePlant : Plant := { coord := fun _ => { budget := 10, progressBudget := 30 } }

def exampleTool (session : Session) : AdmissionRequest := ⟨session, 8, .toolAdmission, false, 8⟩

def exampleQueue : World where
  demand := { capacity := 1000, freeFloor := 0, margin := 0 }
  coords := fun _ => (({} : Coordinator).enqueued ⟨1, 0⟩ (exampleTool 1)).enqueued ⟨2, 1⟩ (exampleTool 2)

def exampleMemory (used : ℤ) : Memory where
  physical := (used, 100)
  globalMemory := (used, 100)
  pending := ⟨∅, by simp⟩
  readable := by simp

def exampleAnswers (used : ℤ) : (q : Ask) → q.Ans
  | .physical _ => some (used, 100)
  | .globalMemory => some (used, 100)
  | .pendingDemand => some (exampleMemory used).pending
  | .hostPhysical _ => none
  | .eventWait _ => ()
  | .conditionWait => ()
  | .pressureRelief _ _ => none
  | .checkpoint _ _ _ => .nothing
  | .operation _ _ => (true, false)
  | .emit _ => true
  | .leads => false
  | .monotonic => 0
  | .check => true
  | .severe _ => some false
  | .resident _ _ => true
  | .runtimeResident _ _ => true
  | .sampler _ => none
  | .cpuSample => none
  | .rankingSample _ => none
  | .returned _ => ()

theorem exampleQueue_accounted : exampleQueue.demand.Accounted := ⟨rfl, fun _ => rfl, by simp [exampleQueue],
  by simp [exampleQueue], by simp [exampleQueue]⟩

theorem exampleQueue_ok : QueueOk (exampleQueue.coords 0) := by
  have h : QueueOk {} := ⟨by simp, by simp⟩
  exact (h.enqueued (by simp) rfl _).enqueued (by decide) (by decide) _

theorem exampleAnswers_seen (used : ℤ) : Seen (G := examplePlant) (exampleMemory used) 0 (exampleAnswers used) {} :=
  ⟨rfl, rfl, rfl, by simp, by simp, by simp⟩

theorem earlier_tools_fit_above_budget :
    ∃ t u, Passes (G := examplePlant) (exampleAnswers 10) 0 {} 16 16 true exampleQueue t ∧
      (commit (examplePlant.coord 0) 0 ⟨2, 1⟩ (exampleTool 2) none).run t = (.ok (), u) ∧
      InTurn (G := examplePlant) (exampleAnswers 10) 0 {} u (earlierTools (exampleQueue.coords 0) ⟨2, 1⟩) := by
  have hpass : Passes (G := examplePlant) (exampleAnswers 10) 0 {} 16 16 true exampleQueue exampleQueue := ⟨_, rfl⟩
  refine ⟨_, _, hpass, rfl, ?_⟩
  have hbatch : feasibleProgressPrefix 0 exampleQueue ⟨2, 1⟩ (some ⟨1, 0⟩) = .ok (some (16, 16)) := by decide
  refine (earlier_tools_fit_iff (r := exampleTool 2) exampleQueue_accounted exampleQueue_ok (exampleAnswers_seen 10)
    (by decide) rfl hbatch hpass rfl).2 ?_
  exact .inr (.inr (.inl (by decide)))

theorem earlier_tool_starved :
    ∃ t u, feasibleProgressPrefix 0 exampleQueue ⟨2, 1⟩ (some ⟨1, 0⟩) = .ok (some (16, 16)) ∧
      Passes (G := examplePlant) (exampleAnswers 0) 0 {} 16 16 true exampleQueue t ∧
      (commit (examplePlant.coord 0) 0 ⟨2, 1⟩ (exampleTool 2) none).run t = (.ok (), u) ∧
      earlierTools (exampleQueue.coords 0) ⟨2, 1⟩ = [(⟨1, 0⟩, exampleTool 1)] ∧
      ¬InTurn (G := examplePlant) (exampleAnswers 0) 0 {} u (earlierTools (exampleQueue.coords 0) ⟨2, 1⟩) := by
  have hearlier : earlierTools (exampleQueue.coords 0) ⟨2, 1⟩ = [(⟨1, 0⟩, exampleTool 1)] := by decide
  refine ⟨exampleQueue, _, by decide, ⟨_, rfl⟩, rfl, hearlier, ?_⟩
  rw [hearlier]
  rintro ⟨t, u, ⟨f, hf⟩, -, -⟩
  have hreasons := congrArg (Option.map fun x => Except.toOption x.1 |>.map Prod.fst) hf
  cases hreasons

end ClawBox.Policy
