import ClawBox.Snapshot.Spill

namespace ClawBox.Snapshot

open Transition

variable {τ : Type}

namespace Pool

structure Accounted (p : Pool τ) : Prop where
  disjoint : ∀ k b, p.reservations.get? k = some b → p.manifests.get? k = none
  spillable : ∀ k f, p.spillers.get? k = some f → ∃ m, p.manifests.get? k = some m
  borrowed : p.borrowedBytes ≤ p.borrowCapacityBytes
  fits : p.borrowResidentHeadroomBytes = none → p.usage ≤ p.capacityBytes
  headroom : ∀ h, p.borrowResidentHeadroomBytes = some h → 0 ≤ h
  reserved : ∀ k b, p.reservations.get? k = some b → 0 ≤ b
  borrows : ∀ id b, p.borrowReservations.get? id = some b → 0 ≤ b
  allocated : ∀ k m, p.manifests.get? k = some m → 0 ≤ m.allocatedBytes

structure Keeps {α : Type} (p : Pool τ) (r : Except PoolError α × Pool τ) : Prop where
  accounted : Accounted r.2
  asserted : r.1 ≠ .error .accountingInvariantViolated
  raised : ∀ e, r.1 = .error e → r.2.usage = p.usage
  bounded : r.2.usage ≤ max p.usage p.capacityBytes
  capacity : r.2.capacityBytes = p.capacityBytes

theorem Keeps.error {α : Type} {p : Pool τ} (h : Accounted p) {e : PoolError} (he : e ≠ .accountingInvariantViolated) :
    Keeps p ((.error e : Except PoolError α), p) := by
  refine ⟨h, ?_, fun _ _ => rfl, le_max_left _ _, rfl⟩
  simpa using he

theorem assertCapacity_run {p : Pool τ} (h : p.borrowResidentHeadroomBytes = none → p.usage ≤ p.capacityBytes) :
    assertCapacity.run p = (.ok (), p) := by
  have hno : ¬ (p.usage > p.capacityBytes ∧ p.borrowResidentHeadroomBytes = none) := by
    rintro ⟨hover, hnone⟩
    have := h hnone
    omega
  simp [assertCapacity, hno]

theorem entries_set_ne_nil {κ ν : Type} [DecidableEq κ] (d : PyDict κ ν) (k : κ) (v : ν) :
    (d.set k v).entries ≠ [] := by
  intro h
  have hget := PyDict.get?_set_self d k v
  rw [PyDict.get?_eq_some, h] at hget
  cases hget

theorem pending_reserve {p : Pool τ} {sandbox : Sandbox} (hnew : p.borrowReservations.get? sandbox = none) (b : ℤ) :
    ({ p with
      borrowReservations := p.borrowReservations.set sandbox b
      unobservedBorrows := p.unobservedBorrows.add sandbox } : Pool τ).pendingBorrowBytes = p.pendingBorrowBytes +
        b := by
  simp only [pendingBorrowBytes, PySet.add, PyDict.sum_set, PyDict.get?_set_self, Option.getD_some]
  have hrest : p.unobservedBorrows.sum (fun id _ => ((p.borrowReservations.set sandbox b).get? id).getD 0) -
      p.unobservedBorrows.weight (fun id _ => ((p.borrowReservations.set sandbox b).get? id).getD 0) sandbox =
      p.unobservedBorrows.sum (fun id _ => (p.borrowReservations.get? id).getD 0) -
      p.unobservedBorrows.weight (fun id _ => (p.borrowReservations.get? id).getD 0) sandbox := by
    rw [← PyDict.sum_pop, ← PyDict.sum_pop]
    apply PyDict.sum_congr
    intro id _ hid
    rw [PyDict.get?_pop] at hid
    split_ifs at hid with he
    rw [PyDict.get?_set_ne _ _ he]
  have hzero : p.unobservedBorrows.weight (fun id _ => (p.borrowReservations.get? id).getD 0) sandbox = 0 := by
    cases hu : p.unobservedBorrows.get? sandbox with
    | none => exact PyDict.weight_of_none hu
    | some u => rw [PyDict.weight_of_get? hu, hnew]; rfl
  omega

theorem usage_reserveBorrow {p : Pool τ} {sandbox : Sandbox} (hnew : p.borrowReservations.get? sandbox = none) (b : ℤ) :
    ({ p with
      borrowReservations := p.borrowReservations.set sandbox b
      unobservedBorrows := p.unobservedBorrows.add sandbox } : Pool τ).usage = p.usage + b + p.firstBorrowHeadroom := by
  have hp := pending_reserve hnew b
  cases hh : p.borrowResidentHeadroomBytes with
  | none =>
    simp only [usage, borrowCharge, firstBorrowHeadroom, hh, borrowedBytes, PyDict.sum_set_new _ _ hnew, reservedBytes,
      committedBytes]
    omega
  | some h =>
    simp only [pendingBorrowBytes] at hp
    simp only [usage, borrowCharge, firstBorrowHeadroom, hh, pendingBorrowBytes, hp, entries_set_ne_nil, if_false,
      reservedBytes, committedBytes]
    split_ifs <;> omega

theorem reserveBorrow_cases (p : Pool τ) (sandbox : Sandbox) (upperBound : ℤ) :
    (∃ e, e ≠ .accountingInvariantViolated ∧ (reserveBorrow sandbox upperBound).run p = (.error e, p)) ∨
      ∃ q : Pool τ, q = { p with
          borrowReservations := p.borrowReservations.set sandbox upperBound
          unobservedBorrows := p.unobservedBorrows.add sandbox } ∧
        (reserveBorrow sandbox upperBound).run p = (.ok (), q) ∧ 0 < upperBound ∧
        p.borrowReservations.get? sandbox = none ∧ p.borrowedBytes + upperBound ≤ p.borrowCapacityBytes ∧
        q.usage ≤ p.capacityBytes := by
  by_cases h1 : sandbox = []
  · exact .inl ⟨.emptySandboxId, by simp, by simp [reserveBorrow, h1]⟩
  by_cases h2 : upperBound ≤ 0
  · exact .inl ⟨.boundNotPositive, by simp, by simp [reserveBorrow, h1, h2]⟩
  by_cases h3 : (p.borrowReservations.get? sandbox).isSome
  · exact .inl ⟨.duplicateBorrow sandbox, by simp, by simp [reserveBorrow, h1, h2, h3]⟩
  by_cases h4 : p.borrowedBytes + upperBound > p.borrowCapacityBytes
  · exact .inl ⟨.borrowCapacityExceeded, by simp, by simp [reserveBorrow, h1, h2, h3, h4]⟩
  by_cases h5 : p.usage + upperBound + p.firstBorrowHeadroom > p.capacityBytes
  · exact .inl ⟨.sharedCapacityExceeded, by simp, by simp [reserveBorrow, h1, h2, h3, h4, h5]⟩
  have hnew : p.borrowReservations.get? sandbox = none := by simpa using h3
  have husage := usage_reserveBorrow hnew upperBound
  refine .inr ⟨_, rfl, ?_, by omega, hnew, by omega, by rw [husage]; omega⟩
  simp only [reserveBorrow, h1, h2, h3, h4, h5, Raising.run_get_bind, Raising.run_modify_bind, if_false,
    Bool.false_eq_true]
  apply assertCapacity_run
  intro _
  rw [husage]
  change p.usage + upperBound + p.firstBorrowHeadroom ≤ p.capacityBytes
  omega

theorem reserveBorrow_keeps {p : Pool τ} (h : Accounted p) (sandbox : Sandbox) (upperBound : ℤ) :
    Keeps p ((reserveBorrow sandbox upperBound).run p) := by
  rcases reserveBorrow_cases p sandbox upperBound with ⟨e, he, hr⟩ | ⟨q, rfl, hr, hpos, hnew, hlimit, hfits⟩
  · rw [hr]
    exact Keeps.error h he
  · rw [hr]
    refine ⟨⟨h.disjoint, h.spillable, ?_, fun _ => hfits, h.headroom, h.reserved, ?_, h.allocated⟩, by simp, by simp,
      ?_, rfl⟩
    · simp only [borrowedBytes, PyDict.sum_set_new _ _ hnew]
      exact hlimit
    · intro id b hb
      simp only at hb
      rw [PyDict.get?_set] at hb
      split_ifs at hb
      · obtain rfl := Option.some.inj hb
        omega
      · exact h.borrows id b hb
    · exact le_trans hfits (le_max_right _ _)

theorem pending_nonneg {p : Pool τ} (h : Accounted p) (id : Sandbox) : 0 ≤ (p.borrowReservations.get? id).getD 0 := by
  cases hid : p.borrowReservations.get? id with
  | none => exact le_refl 0
  | some b => exact h.borrows id b hid

theorem pending_release {p : Pool τ} (h : Accounted p) (sandbox : Sandbox) :
    ({ p with
      borrowReservations := p.borrowReservations.pop sandbox
      unobservedBorrows := p.unobservedBorrows.discard sandbox } : Pool τ).pendingBorrowBytes ≤
        p.pendingBorrowBytes := by
  have hsame : (p.unobservedBorrows.pop sandbox).sum
      (fun id _ => ((p.borrowReservations.pop sandbox).get? id).getD 0) =
      (p.unobservedBorrows.pop sandbox).sum (fun id _ => (p.borrowReservations.get? id).getD 0) := by
    apply PyDict.sum_congr
    intro id _ hid
    rw [PyDict.get?_pop] at hid
    split_ifs at hid with he
    rw [PyDict.get?_pop_ne _ he]
  have hweight : 0 ≤ p.unobservedBorrows.weight (fun id _ => (p.borrowReservations.get? id).getD 0) sandbox := by
    cases hu : p.unobservedBorrows.get? sandbox with
    | none => rw [PyDict.weight_of_none hu]
    | some u =>
      rw [PyDict.weight_of_get? hu]
      exact pending_nonneg h sandbox
  simp only [pendingBorrowBytes, PySet.discard]
  rw [hsame, PyDict.sum_pop]
  omega

theorem borrowed_release {p : Pool τ} {sandbox : Sandbox} {b : ℤ} (hb : p.borrowReservations.get? sandbox = some b) :
    (p.borrowReservations.pop sandbox).sum (fun _ b => b) = p.borrowedBytes - b := by
  rw [PyDict.sum_pop, PyDict.weight_of_get? hb]
  rfl

theorem usage_releaseBorrow {p : Pool τ} (h : Accounted p) {sandbox : Sandbox} {b : ℤ}
    (hb : p.borrowReservations.get? sandbox = some b) :
    ({ p with
      borrowReservations := p.borrowReservations.pop sandbox
      unobservedBorrows := p.unobservedBorrows.discard sandbox } : Pool τ).usage ≤ p.usage := by
  have hpending := pending_release h sandbox
  have hpos := h.borrows sandbox b hb
  have hsum := borrowed_release hb
  cases hh : p.borrowResidentHeadroomBytes with
  | none =>
    simp only [usage, borrowCharge, hh, borrowedBytes, hsum, reservedBytes, committedBytes]
    omega
  | some g =>
    have hg := h.headroom g hh
    have hne : p.borrowReservations.entries ≠ [] := by
      intro hnil
      rw [PyDict.get?_eq_some, hnil] at hb
      cases hb
    simp only [pendingBorrowBytes] at hpending
    simp only [usage, borrowCharge, hh, pendingBorrowBytes, hne, if_false, reservedBytes, committedBytes]
    split_ifs <;> omega

theorem releaseBorrow_run {p : Pool τ} {sandbox : Sandbox} {b : ℤ} (hb : p.borrowReservations.get? sandbox = some b) :
    (releaseBorrow sandbox).run p = (.ok b, { p with
      borrowReservations := p.borrowReservations.pop sandbox
      unobservedBorrows := p.unobservedBorrows.discard sandbox }) := by
  simp only [releaseBorrow, Raising.run_get_bind, hb, Raising.run_modify_bind, Raising.run_pure]

theorem releaseBorrow_keeps {p : Pool τ} (h : Accounted p) (sandbox : Sandbox) :
    Keeps p ((releaseBorrow sandbox).run p) := by
  cases hb : p.borrowReservations.get? sandbox with
  | none => simpa [releaseBorrow, hb] using Keeps.error h (by simp)
  | some b =>
    have husage := usage_releaseBorrow h hb
    have hpos := h.borrows sandbox b hb
    rw [releaseBorrow_run hb]
    refine ⟨⟨h.disjoint, h.spillable, ?_, ?_, h.headroom, h.reserved, ?_, h.allocated⟩, by simp, by simp, ?_, rfl⟩
    · have hle := h.borrowed
      simp only [borrowedBytes] at hle ⊢
      rw [borrowed_release hb]
      simp only [borrowedBytes]
      omega
    · intro hnone
      exact le_trans husage (h.fits hnone)
    · intro id c hc
      rw [PyDict.get?_pop] at hc
      split_ifs at hc
      exact h.borrows id c hc
    · exact le_trans husage (le_max_left _ _)

def observed (p : Pool τ) (sharedLive : ℤ) (settleBorrow : Option Sandbox) : Pool τ :=
  { p with
    observedSharedLiveBytes := sharedLive
    unobservedBorrows := match settleBorrow with
      | some sandbox => p.unobservedBorrows.discard sandbox
      | none => p.unobservedBorrows }

theorem usage_observed {p : Pool τ} (h : p.borrowResidentHeadroomBytes = none) (sharedLive : ℤ)
    (settleBorrow : Option Sandbox) : (p.observed sharedLive settleBorrow).usage = p.usage := by
  simp only [usage, borrowCharge, observed, h, borrowedBytes, reservedBytes, committedBytes]

theorem observeSharedLive_run {p : Pool τ} {sharedLive : ℤ} (h : 0 ≤ sharedLive) (settleBorrow : Option Sandbox) :
    (observeSharedLive sharedLive settleBorrow).run p =
      (.ok (max 0 ((p.observed sharedLive settleBorrow).usage - p.capacityBytes)),
        p.observed sharedLive settleBorrow) := by
  have hneg : ¬ sharedLive < 0 := by omega
  cases settleBorrow with
  | none => simp [observeSharedLive, hneg, observed]
  | some sandbox => simp [observeSharedLive, hneg, observed]

theorem observeSharedLive_negative {p : Pool τ} {sharedLive : ℤ} (h : sharedLive < 0) (settleBorrow : Option Sandbox) :
    (observeSharedLive sharedLive settleBorrow).run p = (.error .negativeSharedLive, p) := by
  simp [observeSharedLive, h]

theorem observeSharedLive_accounted {p : Pool τ} (h : Accounted p) (sharedLive : ℤ) (settleBorrow : Option Sandbox) :
    let r := (observeSharedLive sharedLive settleBorrow).run p
    Accounted r.2 ∧ r.1 ≠ .error .accountingInvariantViolated ∧ (∀ e, r.1 = .error e → r.2.usage = p.usage) ∧
      r.2.capacityBytes = p.capacityBytes := by
  intro r
  rcases lt_or_ge sharedLive 0 with hneg | hpos
  · have hr : r = (.error .negativeSharedLive, p) := observeSharedLive_negative hneg settleBorrow
    rw [hr]
    exact ⟨h, by simp, fun _ _ => rfl, rfl⟩
  · have hr : r = _ := observeSharedLive_run hpos settleBorrow
    have hfits : p.borrowResidentHeadroomBytes = none → (p.observed sharedLive settleBorrow).usage ≤
        p.capacityBytes := by
      intro hnone
      rw [usage_observed hnone]
      exact h.fits hnone
    rw [hr]
    exact ⟨⟨h.disjoint, h.spillable, h.borrowed, hfits, h.headroom, h.reserved, h.borrows, h.allocated⟩,
      by simp, by simp, rfl⟩

theorem reserve_cases (p : Pool τ) (key : SnapshotKey) (upperBound : ℤ) :
    (∃ e, e ≠ .accountingInvariantViolated ∧ (reserve key upperBound).run p = (.error e, p)) ∨
      ∃ q : Pool τ, q = { p with reservations := p.reservations.set key upperBound } ∧
        (reserve key upperBound).run p = (.ok (), q) ∧ 0 < upperBound ∧ p.manifests.get? key = none ∧
        q.usage = p.usage + upperBound ∧ q.usage ≤ p.capacityBytes := by
  by_cases h1 : upperBound ≤ 0
  · exact .inl ⟨.boundNotPositive, by simp, by simp [reserve, h1]⟩
  by_cases h2 : upperBound > p.capacityBytes - p.externalOccupiedBytes
  · exact .inl ⟨.tooLarge, by simp, by simp [reserve, h1, h2]⟩
  by_cases h3 : (p.reservations.get? key).isSome ∨ (p.manifests.get? key).isSome
  · exact .inl ⟨.duplicateGeneration key, by simp, by simp [reserve, h1, h2, h3]⟩
  by_cases h4 : p.usage + upperBound > p.capacityBytes
  · exact .inl ⟨.requiresSpill, by simp, by simp [reserve, h1, h2, h3, h4]⟩
  obtain ⟨hr, hm⟩ : p.reservations.get? key = none ∧ p.manifests.get? key = none := by simpa using h3
  have husage : ({ p with reservations := p.reservations.set key upperBound } : Pool τ).usage = p.usage +
    upperBound := by
    simp only [usage, borrowCharge, borrowedBytes, pendingBorrowBytes, reservedBytes, committedBytes,
      PyDict.sum_set_new _ _ hr]
    omega
  refine .inr ⟨_, rfl, ?_, by omega, hm, husage, by omega⟩
  simp only [reserve, h1, h2, h3, h4, Raising.run_get_bind, Raising.run_modify_bind, if_false]
  apply assertCapacity_run
  intro _
  rw [husage]
  change p.usage + upperBound ≤ p.capacityBytes
  omega

theorem reserve_keeps {p : Pool τ} (h : Accounted p) (key : SnapshotKey) (upperBound : ℤ) :
    Keeps p ((reserve key upperBound).run p) := by
  rcases reserve_cases p key upperBound with ⟨e, he, hr⟩ | ⟨q, rfl, hr, hpos, hm, _, hfits⟩
  · rw [hr]
    exact Keeps.error h he
  · rw [hr]
    refine ⟨⟨?_, h.spillable, h.borrowed, fun _ => hfits, h.headroom, ?_, h.borrows, h.allocated⟩, by simp, by simp, ?_,
      rfl⟩
    · intro k b hb
      simp only at hb ⊢
      rw [PyDict.get?_set] at hb
      split_ifs at hb with hk
      · rw [hk]
        exact hm
      · exact h.disjoint k b hb
    · intro k b hb
      simp only at hb
      rw [PyDict.get?_set] at hb
      split_ifs at hb
      · obtain rfl := Option.some.inj hb
        omega
      · exact h.reserved k b hb
    · exact le_trans hfits (le_max_right _ _)

theorem Accounted.stored {p : Pool τ} (h : Accounted p) {key : SnapshotKey} {old m : Manifest τ}
    (hk : p.manifests.get? key = some old) (hm : m.allocatedBytes = old.allocatedBytes) :
    Accounted { p with manifests := p.manifests.set key m } ∧
      ({ p with manifests := p.manifests.set key m } : Pool τ).usage = p.usage := by
  have husage : ({ p with manifests := p.manifests.set key m } : Pool τ).usage = p.usage := by
    simp only [usage, borrowCharge, borrowedBytes, pendingBorrowBytes, reservedBytes, committedBytes,
      PyDict.sum_set_old _ _ hk, hm]
    omega
  refine ⟨⟨?_, ?_, h.borrowed, ?_, h.headroom, h.reserved, h.borrows, ?_⟩, husage⟩
  · intro k b hb
    have hne : k ≠ key := by
      rintro rfl
      rw [h.disjoint k b hb] at hk
      cases hk
    simp only
    rw [PyDict.get?_set_ne _ _ hne]
    exact h.disjoint k b hb
  · intro k f hf
    obtain ⟨m', hm'⟩ := h.spillable k f hf
    simp only
    rw [PyDict.get?_set]
    split_ifs
    · exact ⟨m, rfl⟩
    · exact ⟨m', hm'⟩
  · intro hnone
    rw [husage]
    exact h.fits hnone
  · intro k m' hm'
    simp only at hm'
    rw [PyDict.get?_set] at hm'
    split_ifs at hm'
    · obtain rfl := Option.some.inj hm'
      rw [hm]
      exact h.allocated key old hk
    · exact h.allocated k m' hm'

theorem store_keeps {p : Pool τ} (h : Accounted p) {key : SnapshotKey} {old m : Manifest τ}
    (hk : p.manifests.get? key = some old) (hm : m.allocatedBytes = old.allocatedBytes) :
    Keeps p ((store key m).run p) := by
  obtain ⟨hacc, husage⟩ := h.stored hk hm
  exact ⟨hacc, by simp [store], by simp [store], by rw [← husage]; exact le_max_left _ _, rfl⟩

theorem committed_pop {p : Pool τ} {key : SnapshotKey} {m : Manifest τ} (hk : p.manifests.get? key = some m) :
    (p.manifests.pop key).sum (fun _ m => m.allocatedBytes) = p.committedBytes - m.allocatedBytes := by
  rw [PyDict.sum_pop, PyDict.weight_of_get? hk]
  rfl

theorem Accounted.retired {p : Pool τ} (h : Accounted p) {key : SnapshotKey} {m : Manifest τ}
    (hk : p.manifests.get? key = some m) :
    let q : Pool τ := { p with manifests := p.manifests.pop key, spillers := p.spillers.pop key }
    Accounted q ∧ q.usage = p.usage - m.allocatedBytes := by
  intro q
  have husage : q.usage = p.usage - m.allocatedBytes := by
    simp only [q, usage, borrowCharge, borrowedBytes, pendingBorrowBytes, reservedBytes]
    simp only [committedBytes, committed_pop hk]
    omega
  have hpos := h.allocated key m hk
  refine ⟨⟨?_, ?_, h.borrowed, ?_, h.headroom, h.reserved, h.borrows, ?_⟩, husage⟩
  · intro k b hb
    simp only [q, PyDict.get?_pop, h.disjoint k b hb, ite_self]
  · intro k f hf
    simp only [q] at hf ⊢
    rw [PyDict.get?_pop] at hf ⊢
    split_ifs at hf ⊢ with hkey
    exact h.spillable k f hf
  · intro hnone
    have := h.fits hnone
    rw [husage]
    change p.usage - m.allocatedBytes ≤ p.capacityBytes
    omega
  · intro k m' hm'
    simp only [q] at hm'
    rw [PyDict.get?_pop] at hm'
    split_ifs at hm'
    exact h.allocated k m' hm'

theorem Accounted.remapped {p : Pool τ} (h : Accounted p) (f : SnapshotKey → Manifest τ → Manifest τ)
    (hf : ∀ k m, (f k m).allocatedBytes = m.allocatedBytes) :
    Accounted { p with manifests := p.manifests.mapValues f } ∧
      ({ p with manifests := p.manifests.mapValues f } : Pool τ).usage = p.usage := by
  have husage : ({ p with manifests := p.manifests.mapValues f } : Pool τ).usage = p.usage := by
    simp only [usage, borrowCharge, borrowedBytes, pendingBorrowBytes, reservedBytes, committedBytes,
      PyDict.sum_mapValues, hf]
  refine ⟨⟨?_, ?_, h.borrowed, ?_, h.headroom, h.reserved, h.borrows, ?_⟩, husage⟩
  · intro k b hb
    simp only [PyDict.get?_mapValues, h.disjoint k b hb, Option.map_none]
  · intro k g hg
    obtain ⟨m, hm⟩ := h.spillable k g hg
    exact ⟨f k m, by simp [PyDict.get?_mapValues, hm]⟩
  · intro hnone
    rw [husage]
    exact h.fits hnone
  · intro k m hm
    simp only [PyDict.get?_mapValues, Option.map_eq_some_iff] at hm
    obtain ⟨m', hm', rfl⟩ := hm
    rw [hf]
    exact h.allocated k m' hm'

theorem pinAll_accounted {p : Pool τ} (h : Accounted p) (victims : List (Manifest τ)) :
    Accounted (p.pinAll victims) ∧ (p.pinAll victims).usage = p.usage := by
  apply h.remapped
  intro k m
  split_ifs <;> rfl

theorem unpinAll_accounted {p : Pool τ} (h : Accounted p) (victims : List Victim) :
    Accounted (p.unpinAll victims) ∧ (p.unpinAll victims).usage = p.usage := by
  apply h.remapped
  intro k m
  split_ifs <;> rfl

theorem lookup_run (p : Pool τ) (key : SnapshotKey) :
    (∃ m, p.manifests.get? key = some m ∧ (lookup key).run p = (.ok m, p)) ∨
      (lookup key).run p = (.error (.keyError key), p) := by
  cases hk : p.manifests.get? key with
  | none => exact .inr (by simp [lookup, hk])
  | some m => exact .inl ⟨m, rfl, by simp [lookup, hk]⟩

theorem lookup_keeps {α : Type} {p : Pool τ} (h : Accounted p) (key : SnapshotKey) (f : Manifest τ → PoolM τ α)
    (hf : ∀ m, p.manifests.get? key = some m → Keeps p ((f m).run p)) : Keeps p ((lookup key >>= f).run p) := by
  rcases lookup_run p key with ⟨m, hm, hr⟩ | hr
  · rw [Raising.run_bind_ok hr]
    exact hf m hm
  · rw [Raising.run_bind_error hr]
    exact Keeps.error h (by simp)

theorem pin_keeps {p : Pool τ} (h : Accounted p) (key : SnapshotKey) : Keeps p ((pin key).run p) := by
  apply lookup_keeps h
  intro m hm
  exact store_keeps h hm rfl

theorem unpin_keeps {p : Pool τ} (h : Accounted p) (key : SnapshotKey) : Keeps p ((unpin key).run p) := by
  apply lookup_keeps h
  intro m hm
  by_cases hpos : m.pinned ≤ 0
  · simpa [hpos] using Keeps.error h (by simp)
  · simp only [hpos, if_false]
    exact store_keeps h hm rfl

theorem touch_keeps {p : Pool τ} (h : Accounted p) (key : SnapshotKey) (now : τ) : Keeps p ((touch key now).run p) := by
  apply lookup_keeps h
  intro m hm
  exact store_keeps h hm rfl

theorem retainForVm_keeps {p : Pool τ} (h : Accounted p) (key : SnapshotKey) : Keeps p ((retainForVm key).run p) := by
  apply lookup_keeps h
  intro m hm
  exact store_keeps h hm rfl

theorem retire_keeps {p : Pool τ} (h : Accounted p) {key : SnapshotKey} {m : Manifest τ}
    (hm : p.manifests.get? key = some m) : Keeps p ((retire key).run p) := by
  obtain ⟨hacc, husage⟩ := h.retired hm
  have hpos := h.allocated key m hm
  refine ⟨hacc, by simp [retire], by simp [retire], ?_, rfl⟩
  apply le_trans _ (le_max_left _ _)
  simp only [retire, Raising.run_modify]
  omega

theorem remove_keeps {p : Pool τ} (h : Accounted p) (key : SnapshotKey) (consumePinned : Bool) :
    Keeps p ((remove key consumePinned).run p) := by
  apply lookup_keeps h
  intro m hm
  by_cases hpin : m.pinned ≠ (if consumePinned then 1 else 0)
  · simpa [hpin] using Keeps.error h (by simp)
  · simp only [hpin, if_false]
    exact retire_keeps h hm

theorem Accounted.unreserved {p : Pool τ} (h : Accounted p) (key : SnapshotKey) :
    Accounted { p with reservations := p.reservations.pop key } ∧
      ({ p with reservations := p.reservations.pop key } : Pool τ).usage =
        p.usage - p.reservations.weight (fun _ b => b) key := by
  have husage : ({ p with reservations := p.reservations.pop key } : Pool τ).usage =
      p.usage - p.reservations.weight (fun _ b => b) key := by
    simp only [usage, borrowCharge, borrowedBytes, pendingBorrowBytes, reservedBytes, committedBytes, PyDict.sum_pop]
    omega
  have hweight : 0 ≤ p.reservations.weight (fun _ b => b) key := by
    cases hk : p.reservations.get? key with
    | none => rw [PyDict.weight_of_none hk]
    | some b =>
      rw [PyDict.weight_of_get? hk]
      exact h.reserved key b hk
  refine ⟨⟨?_, h.spillable, h.borrowed, ?_, h.headroom, ?_, h.borrows, h.allocated⟩, husage⟩
  · intro k b hb
    simp only at hb
    rw [PyDict.get?_pop] at hb
    split_ifs at hb
    exact h.disjoint k b hb
  · intro hnone
    have := h.fits hnone
    rw [husage]
    change p.usage - _ ≤ p.capacityBytes
    omega
  · intro k b hb
    simp only at hb
    rw [PyDict.get?_pop] at hb
    split_ifs at hb
    exact h.reserved k b hb

theorem abort_keeps {p : Pool τ} (h : Accounted p) (key : SnapshotKey) : Keeps p ((abort key).run p) := by
  obtain ⟨hacc, husage⟩ := h.unreserved key
  refine ⟨hacc, by simp [abort], by simp [abort], ?_, rfl⟩
  apply le_trans _ (le_max_left _ _)
  have hle : p.usage - p.reservations.weight (fun _ b => b) key ≤ p.usage := by
    cases hk : p.reservations.get? key with
    | none => rw [PyDict.weight_of_none hk, sub_zero]
    | some b =>
      have := h.reserved key b hk
      rw [PyDict.weight_of_get? hk]
      omega
  exact le_trans (le_of_eq husage) hle

theorem predecessor_cases (p : Pool τ) (key : SnapshotKey) (replaces : Option SnapshotKey) :
    p.predecessor key replaces = .error .invalidPredecessor ∨
      (replaces = none ∧ p.predecessor key replaces = .ok none) ∨
      ∃ old m, replaces = some old ∧ p.manifests.get? old = some m ∧ old ≠ key ∧
        p.predecessor key replaces = .ok (some m) := by
  cases replaces with
  | none => exact .inr (.inl ⟨rfl, rfl⟩)
  | some old =>
    cases hm : p.manifests.get? old with
    | none => exact .inl (by simp [predecessor, hm])
    | some m =>
      by_cases hbad : m.retainedByVm = false ∨ m.pinned ≠ 0 ∨ old.sessionId ≠ key.sessionId ∨ old.role ≠ key.role ∨
          key.generation ≤ old.generation
      · exact .inl (by simp only [predecessor, hm, if_pos hbad])
      · refine .inr (.inr ⟨old, m, rfl, hm, ?_, by simp only [predecessor, hm, if_neg hbad]⟩)
        rintro rfl
        exact hbad (.inr (.inr (.inr (.inr le_rfl))))

theorem Accounted.published {p : Pool τ} (h : Accounted p) {key : SnapshotKey} {reserved : ℤ} {m : Manifest τ}
    (hr : p.reservations.get? key = some reserved) (hm : 0 ≤ m.allocatedBytes) (n : ℕ)
    (hfits : p.borrowResidentHeadroomBytes = none → p.usage - reserved + m.allocatedBytes ≤ p.capacityBytes) :
    let q : Pool τ := { p with
      reservations := p.reservations.pop key
      manifests := p.manifests.set key m
      nextIdent := n }
    Accounted q ∧ q.usage = p.usage - reserved + m.allocatedBytes := by
  intro q
  have hnew : p.manifests.get? key = none := h.disjoint key reserved hr
  have husage : q.usage = p.usage - reserved + m.allocatedBytes := by
    simp only [q, usage, borrowCharge, borrowedBytes, pendingBorrowBytes, reservedBytes, committedBytes, PyDict.sum_pop,
      PyDict.weight_of_get? hr, PyDict.sum_set_new _ _ hnew]
    omega
  refine ⟨⟨?_, ?_, h.borrowed, ?_, h.headroom, ?_, h.borrows, ?_⟩, husage⟩
  · intro k b hb
    simp only [q] at hb ⊢
    rw [PyDict.get?_pop] at hb
    split_ifs at hb with hk
    rw [PyDict.get?_set_ne _ _ hk]
    exact h.disjoint k b hb
  · intro k f hf
    obtain ⟨m', hm'⟩ := h.spillable k f hf
    simp only [q]
    rw [PyDict.get?_set]
    split_ifs
    · exact ⟨m, rfl⟩
    · exact ⟨m', hm'⟩
  · intro hnone
    rw [husage]
    exact hfits hnone
  · intro k b hb
    simp only [q] at hb
    rw [PyDict.get?_pop] at hb
    split_ifs at hb
    exact h.reserved k b hb
  · intro k m' hm'
    simp only [q] at hm'
    rw [PyDict.get?_set] at hm'
    split_ifs at hm'
    · obtain rfl := Option.some.inj hm'
      exact hm
    · exact h.allocated k m' hm'

theorem Accounted.spiller {p : Pool τ} (h : Accounted p) {key : SnapshotKey} {m : Manifest τ}
    (hk : p.manifests.get? key = some m) (f : Spiller) : Accounted { p with spillers := p.spillers.set key f } := by
  refine ⟨h.disjoint, ?_, h.borrowed, h.fits, h.headroom, h.reserved, h.borrows, h.allocated⟩
  intro k g hg
  simp only at hg ⊢
  rw [PyDict.get?_set] at hg
  split_ifs at hg with he
  · exact ⟨m, by rw [he, hk]⟩
  · exact h.spillable k g hg

theorem Accounted.restored {p : Pool τ} (h : Accounted p) {key : SnapshotKey} {reserved : ℤ}
    (hr : p.reservations.get? key = some reserved) :
    let q : Pool τ := { p with reservations := (p.reservations.pop key).set key reserved }
    Accounted q ∧ q.usage = p.usage := by
  intro q
  have hget : ∀ k, q.reservations.get? k = p.reservations.get? k := by
    intro k
    simp only [q, PyDict.get?_set, PyDict.get?_pop]
    split_ifs with hk
    · rw [hk, hr]
    · rfl
  have husage : q.usage = p.usage := by
    simp only [q, usage, borrowCharge, borrowedBytes, pendingBorrowBytes, reservedBytes, committedBytes,
      PyDict.sum_set_new _ _ (PyDict.get?_pop_self _ _), PyDict.sum_pop, PyDict.weight_of_get? hr]
    omega
  refine ⟨⟨?_, h.spillable, h.borrowed, ?_, h.headroom, ?_, h.borrows, h.allocated⟩, husage⟩
  · intro k b hb
    exact h.disjoint k b (by rw [← hget]; exact hb)
  · intro hnone
    rw [husage]
    exact h.fits hnone
  · intro k b hb
    exact h.reserved k b (by rw [← hget]; exact hb)

theorem exceeds_keeps {α : Type} {p : Pool τ} (h : Accounted p) {key : SnapshotKey} {reserved : ℤ}
    (hr : p.reservations.get? key = some reserved) :
    Keeps p ((.error .exceedsReservation : Except PoolError α),
      { p with reservations := (p.reservations.pop key).set key reserved }) := by
  obtain ⟨hacc, husage⟩ := h.restored hr
  exact ⟨hacc, by simp, fun _ _ => husage, by rw [husage]; exact le_max_left _ _, rfl⟩

def CommitArgs.manifest (a : CommitArgs τ) (ident : ℕ) : Manifest τ :=
  { ident, key := a.key, allocatedBytes := a.allocatedBytes, lastUsed := a.now, retentionValue := a.retentionValue }

def withSpiller (p : Pool τ) (key : SnapshotKey) : Option Spiller → Pool τ
  | some f => { p with spillers := p.spillers.set key f }
  | none => p

theorem withSpiller_keeps {p q : Pool τ} (key : SnapshotKey) {m : Manifest τ} (h : Accounted q)
    (hk : q.manifests.get? key = some m) (hle : q.usage ≤ p.usage) (hc : q.capacityBytes = p.capacityBytes)
    (spiller : Option Spiller) : Keeps p (assertCapacity.run (q.withSpiller key spiller)) := by
  have hacc : Accounted (q.withSpiller key spiller) ∧ (q.withSpiller key spiller).usage = q.usage ∧
      (q.withSpiller key spiller).capacityBytes = q.capacityBytes := by
    cases spiller with
    | none => exact ⟨h, rfl, rfl⟩
    | some f => exact ⟨h.spiller hk f, rfl, rfl⟩
  rw [assertCapacity_run hacc.1.fits]
  refine ⟨hacc.1, by simp, by simp, ?_, by rw [hacc.2.2, hc]⟩
  rw [hacc.2.1]
  exact le_trans hle (le_max_left _ _)

theorem commit_keeps {p : Pool τ} (h : Accounted p) (a : CommitArgs τ) : Keeps p ((commit a).run p) := by
  by_cases hneg : a.logicalBytes < 0 ∨ a.allocatedBytes < 0 ∨ ∃ b ∈ a.transferredBytes, b < 0
  · simp only [commit, if_pos hneg, Raising.run_raise_bind]
    exact Keeps.error h (by simp)
  have hpos : 0 ≤ a.allocatedBytes := by
    by_contra hlt
    exact hneg (.inr (.inl (by omega)))
  cases hr : p.reservations.get? a.key with
  | none =>
    rcases predecessor_cases p a.key a.replaces with hp | ⟨_, hp⟩ | ⟨old, m, _, _, _, hp⟩
    all_goals
      simp only [commit, if_neg hneg, Raising.run_get_bind, hp, hr, Raising.run_raise]
      exact Keeps.error h (by simp)
  | some reserved =>
    rcases predecessor_cases p a.key a.replaces with hp | ⟨hold, hp⟩ | ⟨old, m, hold, hm, hne, hp⟩
    · simp only [commit, if_neg hneg, Raising.run_get_bind, hp, Raising.run_raise]
      exact Keeps.error h (by simp)
    · by_cases hover : a.allocatedBytes > reserved + ((none : Option (Manifest τ)).map (·.allocatedBytes)).getD 0
      · simp only [commit, if_neg hneg, Raising.run_get_bind, hp, hr, Raising.run_modify_bind, if_pos hover,
          Raising.run_raise_bind]
        exact exceeds_keeps h hr
      · have hle : a.allocatedBytes ≤ reserved := by simpa using hover
        obtain ⟨hacc, husage⟩ := h.published (m := a.manifest p.nextIdent) hr hpos (p.nextIdent + 1) (by
          intro hnone
          have := h.fits hnone
          simp only [CommitArgs.manifest]
          omega)
        have hkeeps := withSpiller_keeps (p := p) a.key hacc
          (PyDict.get?_set_self _ _ _) (by rw [husage]; simp only [CommitArgs.manifest]; omega) rfl a.spiller
        rw [hold] at hp
        simp only [commit, if_neg hneg, Raising.run_get_bind, hold, hp, hr, Raising.run_modify_bind, if_neg hover,
          publish]
        cases hs : a.spiller <;> simpa [hs, withSpiller, CommitArgs.manifest] using hkeeps
    · by_cases hover : a.allocatedBytes > reserved + ((some m).map (·.allocatedBytes)).getD 0
      · simp only [commit, if_neg hneg, Raising.run_get_bind, hp, hr, Raising.run_modify_bind, if_pos hover,
          Raising.run_raise_bind]
        exact exceeds_keeps h hr
      · have hle : a.allocatedBytes ≤ reserved + m.allocatedBytes := by simpa using hover
        -- popping the predecessor first gives the same pool, and one that fits at every step
        obtain ⟨hretired, hrusage⟩ := h.retired hm
        obtain ⟨hacc, husage⟩ := hretired.published (m := a.manifest p.nextIdent) hr hpos (p.nextIdent + 1) (by
          intro hnone
          have := h.fits hnone
          rw [hrusage]
          simp only [CommitArgs.manifest]
          omega)
        have hkeeps := withSpiller_keeps (p := p) a.key hacc
          (PyDict.get?_set_self _ _ _) (by rw [husage, hrusage]; simp only [CommitArgs.manifest]; omega) rfl a.spiller
        rw [hold] at hp
        simp only [commit, if_neg hneg, Raising.run_get_bind, hold, hp, hr, Raising.run_modify_bind, if_neg hover,
          publish, retire, PyDict.pop_set_ne _ _ hne]
        cases hs : a.spiller <;> simpa [hs, withSpiller, CommitArgs.manifest] using hkeeps

theorem retireVictim_cases {p : Pool τ} (h : Accounted p) (item : Victim) :
    (retireVictim item).run p = (.error (.spillIdentityChanged item.key), p) ∨
      ∃ m q, p.manifests.get? item.key = some m ∧ (retireVictim item).run p = (.ok (), q) ∧ Accounted q ∧
        q.usage = p.usage - m.allocatedBytes ∧ q.capacityBytes = p.capacityBytes := by
  cases hk : p.manifests.get? item.key with
  | none => exact .inl (by simp [retireVictim, hk])
  | some m =>
    by_cases hid : m.ident ≠ item.ident ∨ m.pinned ≠ 1
    · exact .inl (by simp only [retireVictim, Raising.run_get_bind, hk, if_pos hid, Raising.run_raise_bind])
    · obtain ⟨hacc, husage⟩ := h.retired hk
      refine .inr ⟨m, _, rfl, ?_, hacc, husage, rfl⟩
      simp only [retireVictim, Raising.run_get_bind, hk, if_neg hid, retire, Raising.run_modify_bind]
      exact assertCapacity_run hacc.fits

theorem new_accounted {capacity borrowCapacity sharedLive warm : ℤ} {headroom : Option ℤ} {snapshotAware : Bool}
    {p : Pool τ} (h : Pool.new capacity borrowCapacity headroom sharedLive warm snapshotAware = .ok p) :
    Accounted p := by
  unfold Pool.new at h
  split_ifs at h with h1 h2 h3
  obtain rfl := Except.ok.inj h
  refine ⟨by simp, by simp, ?_, ?_, ?_, by simp, by simp, by simp⟩
  · simp only [borrowedBytes, PyDict.sum_empty]
    omega
  · intro hnone
    simp only at hnone
    simp only [usage, borrowCharge, hnone, borrowedBytes, reservedBytes, committedBytes, PyDict.sum_empty]
    omega
  · intro g hg
    simp only at hg
    by_contra hlt
    apply h2
    exact ⟨g, hg, .inl (by omega)⟩

end Pool

def PoolOp.Observes : PoolOp τ → Bool
  | .observeSharedLive .. => true
  | _ => false

theorem discard_keeps {α : Type} {p : Pool τ} {x : PoolM τ α} (h : p.Keeps (x.run p)) :
    p.Keeps ((do let _ ← x : PoolM τ Unit).run p) := by
  rcases hx : x.run p with ⟨r, q⟩
  rw [hx] at h
  cases r with
  | error e =>
    rw [Raising.run_bind_error hx]
    exact ⟨h.accounted, by simpa using h.asserted, fun _ _ => h.raised e rfl, h.bounded, h.capacity⟩
  | ok a =>
    rw [Raising.run_bind_ok hx]
    exact ⟨h.accounted, by simp, by simp, h.bounded, h.capacity⟩

theorem op_keeps {p : Pool τ} (h : p.Accounted) (op : PoolOp τ) (hop : op.Observes = false) : p.Keeps (op.run p) := by
  cases op with
  | reserveBorrow sandbox upperBound => exact Pool.reserveBorrow_keeps h sandbox upperBound
  | releaseBorrow sandbox => exact discard_keeps (Pool.releaseBorrow_keeps h sandbox)
  | observeSharedLive sharedLive settleBorrow => cases hop
  | reserve key upperBound => exact Pool.reserve_keeps h key upperBound
  | commit args => exact Pool.commit_keeps h args
  | abort key => exact Pool.abort_keeps h key
  | pin key => exact Pool.pin_keeps h key
  | unpin key => exact Pool.unpin_keeps h key
  | touch key now => exact Pool.touch_keeps h key now
  | retainForVm key => exact Pool.retainForVm_keeps h key
  | remove key consumePinned => exact Pool.remove_keeps h key consumePinned

theorem observe_accounted {p : Pool τ} (h : p.Accounted) (op : PoolOp τ) (hop : op.Observes = true) :
    (op.run p).2.Accounted ∧ (op.run p).1 ≠ .error .accountingInvariantViolated ∧
      (∀ e, (op.run p).1 = .error e → (op.run p).2.usage = p.usage) ∧ (op.run p).2.capacityBytes = p.capacityBytes := by
  cases op with
  | observeSharedLive sharedLive settleBorrow =>
    obtain ⟨hacc, hassert, hraise, hcap⟩ := Pool.observeSharedLive_accounted h sharedLive settleBorrow
    simp only [PoolOp.run, PoolOp.body]
    rcases hx : (Pool.observeSharedLive sharedLive settleBorrow).run p with ⟨r, q⟩
    simp only [hx] at hacc hassert hraise hcap
    cases r with
    | error e =>
      rw [Raising.run_bind_error hx]
      exact ⟨hacc, by simpa using hassert, fun _ _ => hraise e rfl, hcap⟩
    | ok a =>
      rw [Raising.run_bind_ok hx]
      exact ⟨hacc, by simp, by simp, hcap⟩
  | _ => cases hop

def Outcome.spilledBytes : Outcome → ℤ
  | .spilled bytes => bytes
  | _ => 0

def Action.Observes : Action τ → Bool
  | .op o => o.Observes
  | _ => false

def Thread.Calm : Thread τ → Prop
  | .unpinning _ _ result => result ≠ .error .accountingInvariantViolated
  | .waiting _ _ _ e => e ≠ .accountingInvariantViolated
  | _ => True

namespace Runtime

structure Inv (s : Runtime τ) : Prop where
  accounted : s.pool.Accounted
  calm : ∀ th, (s.threads th).Calm

structure Moves (s : Runtime τ) (a : Action τ) (t : Runtime τ) (o : Outcome) : Prop where
  inv : Inv t
  asserted : o ≠ .raised .accountingInvariantViolated
  usage : o = .returned ∨ t.pool.usage = s.pool.usage - o.spilledBytes
  bounded : a.Observes = false → t.pool.usage ≤ max s.pool.usage s.pool.capacityBytes
  capacity : t.pool.capacityBytes = s.pool.capacityBytes

theorem calm_setThread {s : Runtime τ} (h : ∀ th, (s.threads th).Calm) (th : ℕ) {x : Thread τ} (hx : x.Calm) :
    ∀ u, ((s.setThread th x).threads u).Calm := by
  intro u
  by_cases hu : u = th
  · subst hu
    simpa [setThread] using hx
  · simpa [setThread, hu] using h u

structure Quiet (s : Runtime τ) (r : Runtime τ × Outcome) : Prop where
  pool : r.1.pool = s.pool
  calm : ∀ th, (r.1.threads th).Calm
  asserted : r.2 ≠ .raised .accountingInvariantViolated
  spilled : r.2.spilledBytes = 0

theorem Quiet.moves {s₀ s : Runtime τ} {a : Action τ} {r : Runtime τ × Outcome} (h : Quiet s r)
    (hacc : s.pool.Accounted) (hu : s.pool.usage = s₀.pool.usage) (hc : s.pool.capacityBytes = s₀.pool.capacityBytes) :
    Moves s₀ a r.1 r.2 := by
  refine ⟨⟨by rw [h.pool]; exact hacc, h.calm⟩, h.asserted, ?_, ?_, by rw [h.pool, hc]⟩
  · right
    rw [h.spilled, h.pool, hu, sub_zero]
  · intro _
    rw [h.pool, hu]
    exact le_max_left _ _

theorem of_calm {r : Except PoolError Unit} (h : r ≠ .error .accountingInvariantViolated) :
    Outcome.of r ≠ .raised .accountingInvariantViolated ∧ (Outcome.of r).spilledBytes = 0 := by
  cases r with
  | ok _ => exact ⟨by simp [Outcome.of], rfl⟩
  | error e => exact ⟨by simpa [Outcome.of] using h, rfl⟩

theorem handle_quiet {s : Runtime τ} (h : ∀ th, (s.threads th).Calm) (th : ℕ) (key : SnapshotKey) (upperBound : ℤ)
    (value : τ) {e : PoolError} (he : e ≠ .accountingInvariantViolated) :
    Quiet s (s.handle th key upperBound value e) := by
  unfold handle
  split_ifs
  · exact ⟨rfl, calm_setThread h th he, by simp, rfl⟩
  · exact ⟨rfl, calm_setThread h th trivial, by simpa using he, rfl⟩

theorem settle_quiet {s : Runtime τ} (h : ∀ th, (s.threads th).Calm) (th : ℕ) (caller : Caller τ)
    {r : Except PoolError Unit} (hr : r ≠ .error .accountingInvariantViolated) : Quiet s (s.settle th caller r) := by
  cases caller with
  | spillForAdmission args => exact ⟨rfl, calm_setThread h th trivial, (of_calm hr).1, (of_calm hr).2⟩
  | spillObservedExcess => exact ⟨rfl, calm_setThread h th trivial, (of_calm hr).1, (of_calm hr).2⟩
  | reserveForAdmission key upperBound value =>
    cases r with
    | ok _ => exact ⟨rfl, calm_setThread h th trivial, by simp [settle], rfl⟩
    | error e => exact handle_quiet h th key upperBound value (by simpa using hr)

theorem enter_quiet {s : Runtime τ} (h : ∀ th, (s.threads th).Calm) (th : ℕ) (caller : Caller τ) :
    Quiet s (s.enter th caller) := by
  have hcheck : s.pool.checkRequired caller.args.requiredBytes ≠ some (.error .accountingInvariantViolated) := by
    unfold Pool.checkRequired
    split_ifs <;> simp
  unfold enter
  split
  · exact ⟨rfl, calm_setThread h th trivial, by simp, rfl⟩
  · exact ⟨rfl, calm_setThread h th trivial, by simp, rfl⟩
  · rename_i e he
    apply settle_quiet h
    rintro hbad
    rw [Except.error.inj hbad] at he
    exact hcheck he

theorem start_moves {s t : Runtime τ} {a : Action τ} {o : Outcome} (h : Inv s) {th : ℕ} {caller : Caller τ}
    (hs : s.start th caller = some (t, o)) : Moves s a t o := by
  unfold start at hs
  split at hs
  · rename_i args
    have hq := enter_quiet h.calm th (.spillForAdmission args)
    rw [Option.some.inj hs] at hq
    exact hq.moves h.accounted rfl rfl
  · split_ifs at hs
    have hq := enter_quiet (s := { s with admissionLock := some th }) h.calm th caller
    rw [Option.some.inj hs] at hq
    exact hq.moves h.accounted rfl rfl

theorem advance_moves {s : Runtime τ} {a : Action τ} (h : Inv s) (th : ℕ) (caller : Caller τ)
    (victims todo : List Victim) : Moves s a (s.advance th caller victims todo) .running := by
  have hq : Quiet s (s.advance th caller victims todo, .running) := by
    cases todo with
    | nil => exact ⟨rfl, calm_setThread h.calm th (by simp [Thread.Calm]), by simp, rfl⟩
    | cons item todo =>
      cases hf : s.pool.spillers.get? item.key with
      | none =>
        simp only [advance, hf]
        exact ⟨rfl, calm_setThread h.calm th (by simp [Thread.Calm]), by simp, rfl⟩
      | some f =>
        simp only [advance, hf]
        exact ⟨rfl, calm_setThread h.calm th trivial, by simp, rfl⟩
  exact hq.moves h.accounted rfl rfl

theorem retire_moves {s : Runtime τ} {a : Action τ} (h : Inv s) (th : ℕ) (caller : Caller τ) (victims : List Victim)
    (item : Victim) (todo : List Victim) :
    Moves s a (s.retire th caller victims item todo).1 (s.retire th caller victims item todo).2 := by
  unfold retire
  rcases Pool.retireVictim_cases h.accounted item with hr | ⟨m, q, hm, hr, hacc, husage, hcap⟩
  · simp only [hr]
    refine ⟨⟨h.accounted, calm_setThread h.calm th (by simp [Thread.Calm])⟩, by simp, .inr ?_, ?_, rfl⟩
    · simp [Outcome.spilledBytes]
    · intro _
      exact le_max_left _ _
  · have hpos := h.accounted.allocated _ m hm
    simp only [hr, hm]
    refine ⟨⟨hacc, calm_setThread h.calm th trivial⟩, by simp, .inr ?_, ?_, hcap⟩
    · simpa [Outcome.spilledBytes] using husage
    · intro _
      apply le_trans _ (le_max_left _ _)
      simp only
      omega

theorem reserve_moves {s : Runtime τ} {a : Action τ} (h : Inv s) (th : ℕ) (key : SnapshotKey) (upperBound : ℤ)
    (value : τ) : Moves s a (s.reserve th key upperBound value).1 (s.reserve th key upperBound value).2 := by
  have hk := Pool.reserve_keeps h.accounted key upperBound
  unfold reserve
  rcases hr : (Pool.reserve key upperBound).run s.pool with ⟨r, q⟩
  rw [hr] at hk
  cases r with
  | ok _ =>
    exact ⟨⟨hk.accounted, calm_setThread h.calm th trivial⟩, by simp, .inl rfl, fun _ => hk.bounded, hk.capacity⟩
  | error e =>
    have hq := handle_quiet (s := { s with pool := q }) h.calm th key upperBound value (e := e)
      (by simpa using hk.asserted)
    exact hq.moves hk.accounted (hk.raised e rfl) hk.capacity

theorem op_moves {s : Runtime τ} (h : Inv s) (op : PoolOp τ) :
    Moves s (.op op) { s with pool := (op.run s.pool).2 } (.of (op.run s.pool).1) := by
  have key : (op.run s.pool).2.Accounted ∧ (op.run s.pool).1 ≠ .error .accountingInvariantViolated ∧
      (∀ e, (op.run s.pool).1 = .error e → (op.run s.pool).2.usage = s.pool.usage) ∧
      (op.run s.pool).2.capacityBytes = s.pool.capacityBytes := by
    cases hop : op.Observes with
    | true => exact observe_accounted h.accounted op hop
    | false =>
      have hk := op_keeps h.accounted op hop
      exact ⟨hk.accounted, hk.asserted, hk.raised, hk.capacity⟩
  obtain ⟨hacc, hassert, hraise, hcap⟩ := key
  refine ⟨⟨hacc, h.calm⟩, (of_calm hassert).1, ?_, fun hob => (op_keeps h.accounted op hob).bounded, hcap⟩
  cases hr : (op.run s.pool).1 with
  | ok _ => exact .inl rfl
  | error e =>
    right
    simp only [Outcome.of, Outcome.spilledBytes, hraise e hr, sub_zero]

theorem store_moves {s : Runtime τ} {a : Action τ} (h : Inv s) {key : SnapshotKey} {old m : Manifest τ}
    (hk : s.pool.manifests.get? key = some old) (hm : m.allocatedBytes = old.allocatedBytes) :
    Moves s a { s with pool := ((Pool.store key m).run s.pool).2 } .returned := by
  have hkeeps := Pool.store_keeps h.accounted hk hm
  exact ⟨⟨hkeeps.accounted, h.calm⟩, by simp, .inl rfl, fun _ => hkeeps.bounded, hkeeps.capacity⟩

theorem idle_moves {s : Runtime τ} {a : Action τ} (h : Inv s) {o : Outcome}
    (ho : o ≠ .raised .accountingInvariantViolated) (hb : o.spilledBytes = 0) (th : ℕ) {x : Thread τ} (hx : x.Calm) :
    Moves s a (s.setThread th x) o := by
  have hq : Quiet s (s.setThread th x, o) := ⟨rfl, calm_setThread h.calm th hx, ho, hb⟩
  exact hq.moves h.accounted rfl rfl

variable [LinearOrder τ] [Add τ] [Zero τ] (density : τ → ℤ → τ)

theorem lruVictims_calm (p : Pool τ) (args : SpillArgs τ) :
    p.lruVictims density args ≠ .error .accountingInvariantViolated := by
  unfold Pool.lruVictims
  dsimp only
  split_ifs <;> simp

theorem select_moves {s : Runtime τ} {a : Action τ} (h : Inv s) (th : ℕ) (caller : Caller τ) :
    Moves s a (s.select density th caller).1 (s.select density th caller).2 := by
  have hcalm := lruVictims_calm density s.pool caller.args
  unfold select
  cases hv : s.pool.lruVictims density caller.args with
  | error e =>
    rw [hv] at hcalm
    exact (settle_quiet h.calm th caller (by simpa using hcalm)).moves h.accounted rfl rfl
  | ok victims =>
    obtain ⟨hacc, husage⟩ := Pool.pinAll_accounted h.accounted victims
    refine ⟨⟨hacc, calm_setThread h.calm th trivial⟩, by simp, .inr ?_, ?_, rfl⟩
    · simp only [Outcome.spilledBytes, husage, sub_zero]
    · intro _
      simp only [husage]
      exact le_max_left _ _

variable {density}

theorem next_moves {s t : Runtime τ} {a : Action τ} {o : Outcome} (h : Inv s) (hn : next density s a = some (t, o)) :
    Moves s a t o := by
  have hsame : Moves s a s .returned := by
    exact ⟨h, by simp, .inl rfl, fun _ => le_max_left _ _, rfl⟩
  cases a with
  | op op =>
    obtain ⟨rfl, rfl⟩ := Prod.mk.inj (Option.some.inj hn)
    exact op_moves h op
  | enterGuard key =>
    simp only [next] at hn
    split at hn
    · obtain ⟨rfl, rfl⟩ := Prod.mk.inj (Option.some.inj hn)
      exact hsame
    · rename_i m hm
      split_ifs at hn
      obtain ⟨rfl, rfl⟩ := Prod.mk.inj (Option.some.inj hn)
      exact store_moves h hm rfl
  | leaveGuard item =>
    simp only [next] at hn
    split at hn
    · obtain ⟨rfl, rfl⟩ := Prod.mk.inj (Option.some.inj hn)
      exact hsame
    · rename_i m hm
      split_ifs at hn
      · obtain ⟨rfl, rfl⟩ := Prod.mk.inj (Option.some.inj hn)
        exact store_moves h hm rfl
      · obtain ⟨rfl, rfl⟩ := Prod.mk.inj (Option.some.inj hn)
        exact hsame
  | start th caller =>
    simp only [next] at hn
    split at hn
    · exact start_moves h hn
    · cases hn
  | select th =>
    simp only [next] at hn
    split at hn
    · rename_i caller _
      have hm := select_moves (a := .select th) density h th caller
      rwa [Option.some.inj hn] at hm
    · cases hn
  | advance th =>
    simp only [next] at hn
    split at hn
    · obtain ⟨rfl, rfl⟩ := Prod.mk.inj (Option.some.inj hn)
      exact advance_moves h ..
    · cases hn
  | relocate th ok =>
    simp only [next] at hn
    split at hn
    · obtain ⟨rfl, rfl⟩ := Prod.mk.inj (Option.some.inj hn)
      apply idle_moves h (by simp) rfl
      cases ok
      · simp [Thread.Calm]
      · trivial
    · cases hn
  | retire th =>
    simp only [next] at hn
    split at hn
    · rename_i caller victims item todo _
      have hm := retire_moves (a := .retire th) h th caller victims item todo
      rwa [Option.some.inj hn] at hm
    · cases hn
  | unpin th =>
    simp only [next] at hn
    split at hn
    · rename_i caller victims result hth
      have hcalm := h.calm th
      rw [hth] at hcalm
      obtain ⟨hacc, husage⟩ := Pool.unpinAll_accounted h.accounted victims
      have hq := settle_quiet (s := { s with pool := s.pool.unpinAll victims }) h.calm th caller hcalm
      rw [Option.some.inj hn] at hq
      exact hq.moves hacc husage rfl
    · cases hn
  | reserve th =>
    simp only [next] at hn
    split at hn
    · rename_i key upperBound value _
      have hm := reserve_moves (a := .reserve th) h th key upperBound value
      rwa [Option.some.inj hn] at hm
    · cases hn
  | retry th =>
    simp only [next] at hn
    split at hn
    · exact start_moves h hn
    · cases hn
  | giveUp th =>
    simp only [next] at hn
    split at hn
    · rename_i hth
      have hcalm := h.calm th
      rw [hth] at hcalm
      obtain ⟨rfl, rfl⟩ := Prod.mk.inj (Option.some.inj hn)
      exact idle_moves h (fun hbad => hcalm (Outcome.raised.inj hbad)) rfl th trivial
    · cases hn

theorem reachable_inv {s : Runtime τ} (h : Reachable (system density) s) : Inv s := by
  apply h.invariant
  · rintro s ⟨capacity, borrowCapacity, headroom, sharedLive, warm, snapshotAware, p, hp, rfl⟩
    exact ⟨Pool.new_accounted hp, fun _ => trivial⟩
  · intro s l t hs hstep
    exact (next_moves hs hstep).inv

theorem run_usage {s t : Runtime τ} {ls : List (Action τ × Outcome)} (h : Inv s) (hr : Run (system density) s ls t)
    (hls : ∀ l ∈ ls, l.2 ≠ .returned) : t.pool.usage = s.pool.usage - (ls.map (·.2.spilledBytes)).sum := by
  induction hr with
  | nil => simp
  | @snoc t u ls l hr hl ih =>
    have ht : Inv t := by
      apply hr.invariant _ h
      intro v m w hv hstep
      exact (next_moves hv hstep).inv
    have hlast : l.2 ≠ .returned := hls l (by simp)
    have hprev := ih fun x hx => hls x (List.mem_append_left _ hx)
    rcases (next_moves ht hl).usage with hret | husage
    · exact absurd hret hlast
    · rw [husage, hprev, List.map_append, List.sum_append]
      simp only [List.map_cons, List.map_nil, List.sum_cons, List.sum_nil]
      omega

theorem pool_accounting {s : Runtime τ} (h : Reachable (system density) s) :
    (∀ k, (s.pool.reservations.get? k).isSome → s.pool.manifests.get? k = none) ∧
    (∀ k, (s.pool.spillers.get? k).isSome → (s.pool.manifests.get? k).isSome) ∧
    s.pool.borrowedBytes ≤ s.pool.borrowCapacityBytes ∧
    (s.pool.borrowResidentHeadroomBytes = none →
      s.pool.externalWarmBytes + s.pool.externalSharedLiveBytes + s.pool.borrowedBytes + s.pool.reservedBytes +
        s.pool.committedBytes ≤ s.pool.capacityBytes) ∧
    (∀ l t, (system density).step s l t → l.2 ≠ .raised .accountingInvariantViolated ∧
      (l.1.Observes = false → t.pool.usage ≤ max s.pool.usage s.pool.capacityBytes)) ∧
    (∀ ls t, Run (system density) s ls t → (∀ l ∈ ls, l.2 ≠ .returned) →
      t.pool.usage = s.pool.usage - (ls.map (·.2.spilledBytes)).sum) := by
  have hinv := reachable_inv h
  have hacc := hinv.accounted
  refine ⟨?_, ?_, hacc.borrowed, ?_, ?_, ?_⟩
  · intro k hk
    obtain ⟨b, hb⟩ := Option.isSome_iff_exists.mp hk
    exact hacc.disjoint k b hb
  · intro k hk
    obtain ⟨f, hf⟩ := Option.isSome_iff_exists.mp hk
    exact Option.isSome_iff_exists.mpr (hacc.spillable k f hf)
  · intro hnone
    have hfits := hacc.fits hnone
    simp only [Pool.usage, Pool.borrowCharge, hnone] at hfits
    omega
  · intro l t hstep
    have hm := next_moves hinv hstep
    exact ⟨hm.asserted, hm.bounded⟩
  · intro ls t hr hls
    exact run_usage hinv hr hls

-- a committed generation of 6 bytes is spilled to reserve another one of 6 in a pool of 10
def spillRun : List (Action ℤ) :=
  [.op (.reserve ⟨1, 0, 0⟩ 6),
    .op (.commit ⟨⟨1, 0, 0⟩, 6, 6, none, some 0, none, 0, 1⟩),
    .op (.reserveBorrow ['v'] 20),
    .start 0 (.reserveForAdmission ⟨2, 0, 0⟩ 6 1), .select 0, .advance 0, .op (.touch ⟨1, 0, 0⟩ 2), .relocate 0 true,
    .retire 0, .advance 0, .unpin 0, .reserve 0]

theorem pool_accounting_spill :
    let s : Runtime ℤ := { pool := ⟨10, 10, none, 0, 0, false, 0, ∅, ∅, (∅ : PyDict Sandbox Unit), ∅, ∅, 0⟩ }
    let t := (trace (next fun v n => v / n) s spillRun).1
    t.pool.reservedBytes = 6 ∧ t.pool.committedBytes = 0 ∧
      t.pool.externalWarmBytes + t.pool.externalSharedLiveBytes + t.pool.borrowedBytes + t.pool.reservedBytes +
        t.pool.committedBytes ≤ t.pool.capacityBytes := by
  intro s t
  have hs : Start s := ⟨10, 10, none, 0, 0, false, _, rfl, rfl⟩
  have ht : Reachable (system fun v n => v / n) t := (Reachable.start (T := system fun v n => v / n) hs).trace _
  refine ⟨by decide +kernel, by decide +kernel, ?_⟩
  exact (pool_accounting ht).2.2.2.1 (by decide +kernel)

end Runtime

end ClawBox.Snapshot
