import ClawBox.Snapshot.Spill

namespace ClawBox.Snapshot

open Transition Raising

variable {τ : Type}

namespace Pool

def bump (key : SnapshotKey) (d : ℤ) (p : Pool τ) : Pool τ :=
  { p with manifests := p.manifests.mapValues fun k m => if k = key then { m with pinned := m.pinned + d } else m }

def pinLoop (deficit : ℤ) : ℤ → List (Manifest τ) → PoolM τ (List (Manifest τ) × ℤ)
  | reclaimed, [] => pure ([], reclaimed)
  | reclaimed, item :: rest =>
    modify (bump item.key 1) >>= fun _ =>
      if reclaimed + item.allocatedBytes ≥ deficit then pure ([item], reclaimed + item.allocatedBytes)
      else pinLoop deficit (reclaimed + item.allocatedBytes) rest >>= fun r => pure (item :: r.1, r.2)

def unpinLoop : List (Manifest τ) → PoolM τ Unit
  | [] => pure ()
  | item :: rest => modify (bump item.key (-1)) >>= fun _ => unpinLoop rest

def lruVictimsLocked [LinearOrder τ] [Add τ] [Zero τ] (density : τ → ℤ → τ) (a : SpillArgs τ) :
    PoolM τ (List (Manifest τ)) :=
  get >>= fun p =>
    let deficit := max 0 (p.usage + a.requiredBytes - p.capacityBytes)
    if deficit = 0 then pure []
    else pinLoop deficit 0 (p.candidates density a.exclude) >>= fun r =>
      if r.2 < deficit then unpinLoop r.1 >>= fun _ => raise .noSpillablePrefix
      else if p.snapshotAware ∧ ∃ v ∈ a.candidateValue, v ≤ (r.1.map (·.retentionValue)).foldl (· + ·) 0 then
        unpinLoop r.1 >>= fun _ => raise .admissionRejected
      else pure r.1

def lruVictimsCall [LinearOrder τ] [Add τ] [Zero τ] (density : τ → ℤ → τ) (a : SpillArgs τ) :
    PoolM τ (List (Manifest τ)) :=
  get >>= fun p =>
    match p.checkRequired a.requiredBytes with
    | some (.ok _) => pure []
    | some (.error e) => raise e
    | none => lruVictimsLocked density a

def Keyed (p : Pool τ) : Prop := ∀ k m, p.manifests.get? k = some m → m.key = k

def bumpAll (d : ℤ) (p : Pool τ) (items : List (Manifest τ)) : Pool τ := items.foldl (fun p m => p.bump m.key d) p

theorem pinLoop_run (deficit reclaimed : ℤ) (items : List (Manifest τ)) (p : Pool τ) :
    (pinLoop deficit reclaimed items).run p =
      (.ok (takeVictims deficit reclaimed items), p.bumpAll 1 (takeVictims deficit reclaimed items).1) := by
  induction items generalizing reclaimed p with
  | nil => rfl
  | cons item rest ih =>
    rw [pinLoop, run_modify_bind, takeVictims]
    by_cases h : reclaimed + item.allocatedBytes ≥ deficit
    · simp only [h, if_true, run_pure]
      rfl
    · simp only [h, if_false]
      rw [run_bind_ok (ih _ _)]
      rfl

theorem unpinLoop_run (items : List (Manifest τ)) (p : Pool τ) :
    (unpinLoop items).run p = (.ok (), p.bumpAll (-1) items) := by
  induction items generalizing p with
  | nil => rfl
  | cons item rest ih =>
    rw [unpinLoop, run_modify_bind, ih]
    rfl

theorem bumpAll_eq (d : ℤ) (p : Pool τ) (items : List (Manifest τ)) :
    p.bumpAll d items = { p with manifests := p.manifests.mapValues fun k m =>
      { m with pinned := m.pinned + d * (items.map Manifest.key).count k } } := by
  induction items generalizing p with
  | nil => simp [bumpAll, PyDict.mapValues_id]
  | cons item rest ih =>
    rw [bumpAll, List.foldl_cons, ← bumpAll, ih, bump]
    simp only [PyDict.mapValues_mapValues]
    congr 2
    funext k m
    rw [List.map_cons, List.count_cons]
    by_cases h : k = item.key
    · simp only [h, if_true, beq_self_eq_true]
      congr 1
      push_cast
      ring
    · have hne : (item.key == k) = false := beq_eq_false_iff_ne.2 (Ne.symm h)
      simp [h, hne]

theorem bumpAll_undo (p : Pool τ) (items : List (Manifest τ)) : (p.bumpAll 1 items).bumpAll (-1) items = p := by
  rw [bumpAll_eq, bumpAll_eq]
  simp only [PyDict.mapValues_mapValues]
  have hid : (p.manifests.mapValues fun k m => ({ m with pinned :=
    m.pinned + 1 * ((items.map Manifest.key).count k : ℤ) +
      -1 * ((items.map Manifest.key).count k : ℤ) } : Manifest τ)) = p.manifests := by
    conv_rhs => rw [← PyDict.mapValues_id p.manifests]
    apply PyDict.mapValues_congr
    intro k m _
    simp
  rw [hid]

theorem takeVictims_prefix (deficit reclaimed : ℤ) (items : List (Manifest τ)) :
    (takeVictims deficit reclaimed items).1 <+: items := by
  induction items generalizing reclaimed with
  | nil => exact List.prefix_refl []
  | cons item rest ih =>
    rw [takeVictims]
    split_ifs
    · exact ⟨rest, rfl⟩
    · exact List.cons_prefix_cons.2 ⟨rfl, ih _⟩

def allocated (items : List (Manifest τ)) : ℤ := (items.map Manifest.allocatedBytes).sum

theorem takeVictims_reclaimed (deficit reclaimed : ℤ) (items : List (Manifest τ)) :
    (takeVictims deficit reclaimed items).2 = reclaimed + allocated (takeVictims deficit reclaimed items).1 := by
  induction items generalizing reclaimed with
  | nil => simp [takeVictims, allocated]
  | cons item rest ih =>
    rw [takeVictims]
    split_ifs
    · simp [allocated]
    · simp only [ih]
      simp only [allocated, List.map_cons, List.sum_cons]
      omega

theorem takeVictims_shortest (deficit reclaimed : ℤ) (items : List (Manifest τ)) (h : reclaimed < deficit)
    {w : List (Manifest τ)} (hw : w <+: items) (hlen : w.length < (takeVictims deficit reclaimed items).1.length) :
    reclaimed + allocated w < deficit := by
  induction items generalizing reclaimed w with
  | nil => simp [takeVictims] at hlen
  | cons item rest ih =>
    cases w with
    | nil => simpa [allocated] using h
    | cons m w =>
      obtain ⟨rfl, htail⟩ := List.cons_prefix_cons.1 hw
      rw [takeVictims] at hlen
      by_cases hstop : reclaimed + m.allocatedBytes ≥ deficit
      · simp [hstop] at hlen
      · simp only [hstop, if_false, List.length_cons, Nat.add_lt_add_iff_right] at hlen
        have := ih (reclaimed + m.allocatedBytes) (by omega) htail hlen
        simp only [allocated, List.map_cons, List.sum_cons] at this ⊢
        omega

section Selection

variable [LinearOrder τ]

theorem mem_candidates {density : τ → ℤ → τ} {p : Pool τ} {exclude : List SnapshotKey} {m : Manifest τ} :
    m ∈ p.candidates density exclude ↔
      (∃ k, p.manifests.get? k = some m) ∧ m.key ∉ exclude ∧ m.pinned = 0 ∧ m.retainedByVm = false := by
  simp [candidates, List.mem_insertionSort, PyDict.mem_values]

theorem candidates_keys_nodup {density : τ → ℤ → τ} {p : Pool τ} (h : p.Keyed) (exclude : List SnapshotKey) :
    ((p.candidates density exclude).map Manifest.key).Nodup := by
  have hvalues : p.manifests.values.map Manifest.key = p.manifests.keys := by
    rw [PyDict.values, PyDict.keys, List.map_map]
    apply List.map_congr_left
    intro e he
    exact h e.1 e.2 (PyDict.get?_eq_some.2 he)
  have hperm : ((p.candidates density exclude).map Manifest.key).Perm ((p.manifests.values.filter fun m =>
      m.key ∉ exclude ∧ m.pinned = 0 ∧ m.retainedByVm = false).map Manifest.key) :=
    (List.perm_insertionSort _ _).map _
  rw [hperm.nodup_iff]
  apply List.Nodup.sublist (List.filter_sublist.map Manifest.key)
  rw [hvalues]
  exact p.manifests.nodup

theorem victimLe_total (density : τ → ℤ → τ) (snapshotAware : Bool) (a b : Manifest τ) :
    victimLe density snapshotAware a b = true ∨ victimLe density snapshotAware b a = true := by
  unfold victimLe
  cases snapshotAware with
  | true => simpa only [if_true, decide_eq_true_eq] using le_total _ _
  | false => simpa only [Bool.false_eq_true, if_false, decide_eq_true_eq] using le_total _ _

theorem victimLe_trans (density : τ → ℤ → τ) (snapshotAware : Bool) (a b c : Manifest τ)
    (hab : victimLe density snapshotAware a b = true) (hbc : victimLe density snapshotAware b c = true) :
    victimLe density snapshotAware a c = true := by
  unfold victimLe at *
  cases snapshotAware with
  | true =>
    simp only [if_true, decide_eq_true_eq] at *
    exact le_trans hab hbc
  | false =>
    simp only [Bool.false_eq_true, if_false, decide_eq_true_eq] at *
    exact le_trans hab hbc

theorem candidates_sorted (density : τ → ℤ → τ) (p : Pool τ) (exclude : List SnapshotKey) :
    (p.candidates density exclude).Pairwise fun a b => victimLe density p.snapshotAware a b = true := by
  have htotal : Std.Total fun a b : Manifest τ => victimLe density p.snapshotAware a b = true :=
    ⟨victimLe_total density p.snapshotAware⟩
  have htrans : IsTrans (Manifest τ) fun a b => victimLe density p.snapshotAware a b = true :=
    ⟨victimLe_trans density p.snapshotAware⟩
  exact List.pairwise_insertionSort _ _

theorem candidates_perm (density : τ → ℤ → τ) (p : Pool τ) (exclude : List SnapshotKey) :
    (p.candidates density exclude).Perm
      (p.manifests.values.filter fun m => m.key ∉ exclude ∧ m.pinned = 0 ∧ m.retainedByVm = false) :=
  List.perm_insertionSort _ _

theorem bumpAll_victims {density : τ → ℤ → τ} {p : Pool τ} (h : p.Keyed) {exclude : List SnapshotKey}
    {victims : List (Manifest τ)} (hv : victims <+: p.candidates density exclude) :
    p.bumpAll 1 victims = p.pinAll victims := by
  have hnodup : (victims.map Manifest.key).Nodup :=
    (candidates_keys_nodup h exclude).sublist (hv.sublist.map Manifest.key)
  rw [bumpAll_eq, pinAll]
  congr 1
  apply PyDict.mapValues_congr
  intro k m hm
  have hmem : (⟨k, m.ident⟩ : Victim) ∈ victims.map (fun v => Victim.mk v.key v.ident) ↔
      k ∈ victims.map Manifest.key := by
    simp only [List.mem_map, Victim.mk.injEq]
    constructor
    · rintro ⟨v, hmem, hk, -⟩
      exact ⟨v, hmem, hk⟩
    · rintro ⟨v, hmem, hk⟩
      obtain ⟨k', hk'⟩ := (mem_candidates.1 (hv.subset hmem)).1
      have hkey := h k' v hk'
      rw [← hkey, hk, hm] at hk'
      exact ⟨v, hmem, hk, by rw [Option.some.inj hk']⟩
  by_cases hk : k ∈ victims.map Manifest.key
  · rw [if_pos (hmem.2 hk), List.count_eq_one_of_mem hnodup hk]
    simp
  · rw [if_neg (fun hin => hk (hmem.1 hin)), List.count_eq_zero_of_not_mem hk]
    simp

variable [Add τ] [Zero τ]

theorem lruVictimsLocked_run {density : τ → ℤ → τ} {p : Pool τ} (h : p.Keyed) (a : SpillArgs τ) :
    (lruVictimsLocked density a).run p = match p.lruVictims density a with
      | .ok victims => (.ok victims, p.pinAll victims)
      | .error e => (.error e, p) := by
  have hnone : p.pinAll ([] : List (Manifest τ)) = p := by
    simp [pinAll, PyDict.mapValues_id]
  have hpins := bumpAll_victims h ( takeVictims_prefix (max 0 (p.usage + a.requiredBytes - p.capacityBytes)) 0
    (p.candidates density a.exclude))
  simp only [lruVictimsLocked, run_get_bind, lruVictims]
  generalize max 0 (p.usage + a.requiredBytes - p.capacityBytes) = deficit at hpins ⊢
  by_cases hzero : deficit = 0
  · simp only [hzero, if_true, run_pure, hnone]
  · rw [if_neg hzero, if_neg hzero, run_bind_ok (pinLoop_run _ _ _ _)]
    generalize takeVictims deficit 0 (p.candidates density a.exclude) = taken at hpins ⊢
    by_cases hshort : taken.2 < deficit
    · simp only [hshort, if_true]
      rw [run_bind_ok (unpinLoop_run _ _), bumpAll_undo]
      rfl
    · simp only [hshort, if_false]
      by_cases hvalue : p.snapshotAware ∧ ∃ v ∈ a.candidateValue, v ≤ (taken.1.map (·.retentionValue)).foldl (· + ·) 0
      · rw [if_pos hvalue, if_pos hvalue, run_bind_ok (unpinLoop_run _ _), bumpAll_undo]
        rfl
      · rw [if_neg hvalue, if_neg hvalue, run_pure, hpins]

/-- The victims are the shortest prefix, in victim order, of the manifests that may be spilled that covers the
deficit. -/
structure Selects (density : τ → ℤ → τ) (p : Pool τ) (a : SpillArgs τ) (order victims : List (Manifest τ)) : Prop where
  spillable : order.Perm (p.manifests.values.filter fun m => m.key ∉ a.exclude ∧ m.pinned = 0 ∧ m.retainedByVm = false)
  sorted : order.Pairwise fun m n => victimLe density p.snapshotAware m n = true
  taken : victims <+: order
  covers : max 0 (p.usage + a.requiredBytes - p.capacityBytes) ≤ allocated victims
  shortest : ∀ w, w <+: order → w.length < victims.length →
    allocated w < max 0 (p.usage + a.requiredBytes - p.capacityBytes)

omit [Add τ] [Zero τ] in
theorem selects_nil {density : τ → ℤ → τ} {p : Pool τ} {a : SpillArgs τ}
    (h : max 0 (p.usage + a.requiredBytes - p.capacityBytes) = 0) :
    Selects density p a (p.candidates density a.exclude) [] := by
  refine ⟨candidates_perm _ _ _, candidates_sorted _ _ _, List.nil_prefix, ?_, ?_⟩
  · rw [h]
    simp [allocated]
  · intro w _ hlen
    simp at hlen

theorem lruVictims_selects {density : τ → ℤ → τ} {p : Pool τ} {a : SpillArgs τ} {victims : List (Manifest τ)}
    (h : p.lruVictims density a = .ok victims) : Selects density p a (p.candidates density a.exclude) victims := by
  have hsum := takeVictims_reclaimed (max 0 (p.usage + a.requiredBytes - p.capacityBytes)) 0
    (p.candidates density a.exclude)
  simp only [lruVictims] at h
  split_ifs at h with hdeficit hshort
  · obtain rfl := Except.ok.inj h
    exact selects_nil hdeficit
  · obtain rfl := Except.ok.inj h
    refine ⟨candidates_perm _ _ _, candidates_sorted _ _ _, takeVictims_prefix _ _ _, by omega, ?_⟩
    intro w hw hlen
    have := takeVictims_shortest _ 0 _ (by omega) hw hlen
    omega

theorem lruVictimsCall_spec (density : τ → ℤ → τ) {p : Pool τ} (h : p.Keyed) (a : SpillArgs τ) :
    (∃ victims order, (lruVictimsCall density a).run p = (.ok victims, p.pinAll victims) ∧
      Selects density p a order victims) ∨
      ∃ e, (lruVictimsCall density a).run p = (.error e, p) := by
  rw [lruVictimsCall, run_get_bind]
  cases hcheck : p.checkRequired a.requiredBytes with
  | none =>
    simp only [lruVictimsLocked_run h]
    cases hl : p.lruVictims density a with
    | ok victims => exact .inl ⟨victims, _, rfl, lruVictims_selects hl⟩
    | error e => exact .inr ⟨e, rfl⟩
  | some r =>
    cases r with
    | error e => exact .inr ⟨e, rfl⟩
    | ok _ =>
      have hdeficit : max 0 (p.usage + a.requiredBytes - p.capacityBytes) = 0 := by
        unfold checkRequired at hcheck
        split_ifs at hcheck with hneg hzero
        · cases hcheck
        · rw [hzero.1]
          have := hzero.2
          omega
        · cases hcheck
        · cases hcheck
      refine .inl ⟨[], _, ?_, selects_nil hdeficit⟩
      simp [pinAll, PyDict.mapValues_id]

end Selection

end Pool

end ClawBox.Snapshot
