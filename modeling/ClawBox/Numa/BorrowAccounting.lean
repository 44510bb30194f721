import ClawBox.Numa.BorrowLink

namespace ClawBox.Numa

open Transition ClawBox.Snapshot

variable {τ : Type}

namespace Borrower

theorem start_view {s : Borrower τ} (h : Start s) (v : Sandbox) : s.view v = ⟨.idle, none, none, false⟩ := by
  obtain ⟨capacity, borrowCapacity, headroom, sharedLive, warm, snapshotAware, p, hp, rfl⟩ := h
  unfold Pool.new at hp
  split_ifs at hp
  obtain rfl := Except.ok.inj hp
  rfl

theorem views_step {P : View → Prop} {s t : Borrower τ} {a : Action τ} {e : Event} (h : next s a = some (t, e))
    (hP : ∀ v, P (s.view v)) (hstep : ∀ v, a.vm = some v → LocalStep v a e (s.view v) (t.view v) → P (t.view v)) :
    ∀ v, P (t.view v) := by
  intro u
  rcases next_stepped h with ⟨_, hsame⟩ | ⟨v, hv, hs⟩
  · rw [hsame]
    exact hP u
  · by_cases hu : u = v
    · subst hu
      exact hstep u hv hs.own
    · rw [hs.others u hu]
      exact hP u

theorem reachable_matched {s : Borrower τ} (h : Reachable system s) : ∀ v, (s.view v).Matched := by
  apply h.invariant (I := fun s => ∀ v, (s.view v).Matched)
  · intro s hs v
    rw [start_view hs]
    exact .steady rfl (by simp) (by simp) (by simp)
  · intro s l t hs hstep
    exact views_step hstep hs fun v _ hl => hl.matched (hs v)

def returnObserved (s : Borrower τ) : Action τ → Bool
  | .parentShared v shared => s.phase v = .settlingReturn true → ∃ n ∈ shared, 0 ≤ n
  | _ => true

theorem reachable_kept {s : Borrower τ} (h : Reachable (system.restrict fun s l => returnObserved s l.1) s) :
    ∀ v, (s.view v).Kept := by
  have hboth : (∀ v, (s.view v).Matched) ∧ ∀ v, (s.view v).Kept := by
    apply h.invariant (I := fun s => (∀ v, (s.view v).Matched) ∧ ∀ v, (s.view v).Kept)
    · intro s hs
      constructor
      · intro v
        rw [start_view hs]
        exact .steady rfl (by simp) (by simp) (by simp)
      · intro v
        rw [start_view hs]
        simp [View.Kept]
    · rintro s l t ⟨hm, hk⟩ ⟨hstep, hok⟩
      constructor
      · exact views_step hstep hm fun v _ hl => hl.matched (hm v)
      · apply views_step hstep hk
        intro v _ hl
        apply hl.kept (hm v) (hk v)
        intro hphase shared hact
        rw [hact] at hok
        obtain ⟨n, hn, hpos⟩ := of_decide_eq_true hok hphase
        exact ⟨n, hpos, hn⟩
  exact hboth.2

theorem view_other {s t : Borrower τ} {a : Action τ} {e : Event} (h : next s a = some (t, e)) {v : Sandbox}
    (hv : a.vm ≠ some v) : t.view v = s.view v := by
  rcases next_stepped h with ⟨_, hsame⟩ | ⟨u, hu, hs⟩
  · exact hsame v
  · apply hs.others
    rintro rfl
    exact hv hu

theorem local_step {s t : Borrower τ} {a : Action τ} {e : Event} (h : next s a = some (t, e)) {v : Sandbox}
    (hv : a.vm = some v) : LocalStep v a e (s.view v) (t.view v) := by
  rcases next_stepped h with ⟨hnone, _⟩ | ⟨u, hu, hs⟩
  · rw [hnone] at hv
    cases hv
  · rw [hv] at hu
    obtain rfl := Option.some.inj hu
    exact hs.own

def Located (v : Sandbox) (leaf : Leaf) (ls : List (Action τ × Event)) : Prop :=
  ∃ before e, Since (fun x => ∃ l, x.1 = .locate v l) before (.locate v (some leaf), e) ls

def Measured (v : Sandbox) (shared : ℤ) (ls : List (Action τ × Event)) : Prop :=
  ∃ before e, Since (fun x => x.1.vm = some v) before (.parentShared v (some shared), e) ls

def Baseline (v : Sandbox) (shared : ℤ) (ls : List (Action τ × Event)) : Prop :=
  ∃ before, Measured v shared before ∧ Since (fun x => x.1 = .reserve v) before (.reserve v, .running) ls

theorem Located.snoc {v : Sandbox} {leaf : Leaf} {ls : List (Action τ × Event)} {l : Action τ × Event}
    (h : Located v leaf ls) (hl : ∀ leaf', l.1 ≠ .locate v leaf') : Located v leaf (ls ++ [l]) := by
  obtain ⟨before, e, h⟩ := h
  exact ⟨before, e, h.snoc fun ⟨leaf', hx⟩ => hl leaf' hx⟩

theorem Measured.snoc {v : Sandbox} {shared : ℤ} {ls : List (Action τ × Event)} {l : Action τ × Event}
    (h : Measured v shared ls) (hl : l.1.vm ≠ some v) : Measured v shared (ls ++ [l]) := by
  obtain ⟨before, e, h⟩ := h
  exact ⟨before, e, h.snoc hl⟩

theorem Baseline.snoc {v : Sandbox} {shared : ℤ} {ls : List (Action τ × Event)} {l : Action τ × Event}
    (h : Baseline v shared ls) (hl : l.1 ≠ .reserve v) : Baseline v shared (ls ++ [l]) := by
  obtain ⟨before, hm, h⟩ := h
  exact ⟨before, hm, h.snoc hl⟩

structure Traced (s : Borrower τ) (v : Sandbox) (ls : List (Action τ × Event)) : Prop where
  located : ∀ leaf, (s.phase v).leaf = some leaf → Located v leaf ls
  measured : ∀ c l p, s.phase v = .reserving c l p → Measured v p ls
  recording : ∀ c l p, s.phase v = .recording c l p → Baseline v p ls
  entered : ∀ entry, s.borrowed.get? v = some entry → Baseline v entry.parentSharedBytesBefore ls
  inspected : ∀ entry, s.phase v = .inspecting entry → s.borrowed.get? v = some entry

theorem locating_of_next {s : Borrower τ} {v : Sandbox} {leaf : Option Leaf} {r : Borrower τ × Event}
    (h : next s (.locate v leaf) = some r) : (s.phase v).leaf = none := by
  cases hx : s.phase v with
  | locating | pinLocating => rfl
  | _ => simp [next, hx] at h

theorem reserving_of_next {s : Borrower τ} {v : Sandbox} {r : Borrower τ × Event} (h : next s (.reserve v) = some r) :
    ∃ c l p, s.phase v = .reserving c l p := by
  cases hx : s.phase v with
  | reserving c l p => exact ⟨c, l, p, rfl⟩
  | _ => simp [next, hx] at h

theorem Traced.step {s t : Borrower τ} {v : Sandbox} {ls : List (Action τ × Event)} {l : Action τ × Event}
    (h : Traced s v ls) (hm : (s.view v).Matched) (hl : next s l.1 = some (t, l.2)) : Traced t v (ls ++ [l]) := by
  by_cases hv : l.1.vm = some v
  · have hs := local_step hl hv
    -- an entry keeps its baseline, for a VM with an entry reserves nothing
    have hkept : ∀ {shared}, Baseline v shared ls → (∀ c k p, s.phase v ≠ .reserving c k p) →
        Baseline v shared (ls ++ [l]) := by
      intro shared hb hx
      apply hb.snoc
      intro hact
      rw [hact] at hl
      obtain ⟨c, k, p, hp⟩ := reserving_of_next hl
      exact hx c k p hp
    refine ⟨?_, ?_, ?_, ?_, fun entry => hs.inspected⟩
    · intro leaf hleaf
      rcases hs.leaf hleaf with hold | hact
      · apply (h.located leaf hold).snoc
        intro leaf' hact
        rw [hact] at hl
        have hnone := locating_of_next hl
        exact Option.some_ne_none leaf (hold.symm.trans hnone)
      · rw [← Prod.mk.eta (p := l), hact]
        exact ⟨ls, l.2, .last⟩
    · intro c k p hp
      rw [← Prod.mk.eta (p := l), hs.reserving hp]
      exact ⟨ls, l.2, .last⟩
    · intro c k p hp
      obtain ⟨hx, hact, ho⟩ := hs.recording hp
      rw [← Prod.mk.eta (p := l), hact, ho]
      exact ⟨ls, h.measured c k p hx, .last⟩
    · intro entry hentry
      rcases hs.entered hentry with ⟨e', he', hsame⟩ | ⟨c, k, hx⟩
      · rw [← hsame]
        apply hkept (h.entered e' he')
        intro c k p hp
        have hnone := (hm.reserving c k p hp).1
        exact Option.some_ne_none e' (he'.symm.trans hnone)
      · apply hkept (h.recording c k _ hx)
        intro c' k' p' hp
        have hx' : s.phase v = .recording c k entry.parentSharedBytesBefore := hx
        rw [hx'] at hp
        cases hp
  · have hsame := view_other hl hv
    have hphase : t.phase v = s.phase v := congrArg View.phase hsame
    have hentry : t.borrowed.get? v = s.borrowed.get? v := congrArg View.entry hsame
    have hother : ∀ a : Action τ, a.vm = some v → l.1 ≠ a := by
      rintro a ha rfl
      exact hv ha
    refine ⟨?_, ?_, ?_, ?_, ?_⟩
    · rw [hphase]
      exact fun leaf hleaf => (h.located leaf hleaf).snoc fun _ => hother _ rfl
    · rw [hphase]
      exact fun c k p hp => (h.measured c k p hp).snoc hv
    · rw [hphase]
      exact fun c k p hp => (h.recording c k p hp).snoc (hother _ rfl)
    · rw [hentry]
      exact fun entry he => (h.entered entry he).snoc (hother _ rfl)
    · rw [hphase, hentry]
      exact h.inspected

theorem run_traced {s₀ s : Borrower τ} {ls : List (Action τ × Event)} (h₀ : system.start s₀) (hr : Run system s₀ ls s)
    (v : Sandbox) : Traced s v ls := by
  induction hr with
  | nil =>
    have hv := start_view h₀ v
    have hphase : s₀.phase v = .idle := congrArg View.phase hv
    have hentry : s₀.borrowed.get? v = none := congrArg View.entry hv
    exact ⟨by simp [hphase, Phase.leaf], by simp [hphase], by simp [hphase], by simp [hentry], by simp [hphase]⟩
  | snoc hr hl ih => exact ih.step (reachable_matched ⟨_, _, h₀, hr⟩ v) hl

/-- The read that shows no page of `v` left on the shared node: of `v`'s leaf, or of the parent once the leaf is gone.
-/
def Evidence (s : Borrower τ) (v : Sandbox) (before : List (Action τ × Event)) : Action τ → Prop
  | .leafShared u leaf shared => u = v ∧ Located v leaf before ∧ shared = some 0
  | .rollback u leaf mems shared => u = v ∧ Located v leaf before ∧ mems = some .localNode ∧ shared = some 0
  | .inspect u leaf found => u = v ∧ (s.borrowed.get? v).map (·.leaf) = some leaf ∧
      (found = .leafPresent false 0 ∨
        ∃ shared baseline, found = .leafGone shared ∧ Baseline v baseline before ∧ shared ≤ baseline)
  | _ => False

theorem Traced.evidence {s : Borrower τ} {v : Sandbox} {ls : List (Action τ × Event)} {a : Action τ}
    (h : Traced s v ls) (hc : (s.phase v).Clears v a) : Evidence s v ls a := by
  cases a with
  | leafShared u leaf shared =>
    obtain ⟨hu, hleaf, hzero⟩ := hc
    exact ⟨hu, h.located leaf hleaf, hzero⟩
  | rollback u leaf mems shared =>
    obtain ⟨hu, hleaf, hzero⟩ := hc
    exact ⟨hu, h.located leaf hleaf, hzero⟩
  | inspect u leaf found =>
    obtain ⟨hu, entry, hx, rfl, hfound⟩ := hc
    have hentry := h.inspected entry hx
    refine ⟨hu, by rw [hentry]; rfl, hfound.imp_right ?_⟩
    rintro ⟨shared, rfl, hle⟩
    exact ⟨shared, _, rfl, h.entered entry hentry, hle⟩
  | _ => exact hc

theorem releasing_cleared {s₀ s : Borrower τ} {ls : List (Action τ × Event)} (h₀ : system.start s₀)
    (hr : Run system s₀ ls s) {v : Sandbox} {cause : Cause} (hv : s.phase v = .releasing cause) :
    ∃ before m o, Run system s₀ before m ∧ Evidence m v before o.1 ∧ Since (fun x => x.1.vm = some v) before o ls := by
  induction hr with
  | nil =>
    have := congrArg View.phase (start_view h₀ v)
    simp only [view] at this
    rw [this] at hv
    cases hv
  | @snoc t u ls l hr hl ih =>
    by_cases hvm : l.1.vm = some v
    · exact ⟨ls, t, l, hr, (run_traced h₀ hr v).evidence ((local_step hl hvm).releasing hv), .last⟩
    · have hphase : t.phase v = .releasing cause := by
        have := congrArg View.phase (view_other hl hvm)
        exact this.symm.trans hv
      obtain ⟨before, m, o, hm, ho, hafter⟩ := ih hphase
      exact ⟨before, m, o, hm, ho, hafter.snoc hvm⟩

theorem borrow_ledgers_agree {s₀ s : Borrower τ} {ls : List (Action τ × Event)} (h₀ : system.start s₀)
    (hr : Run system s₀ ls s) :
    (Run (system.restrict fun s l => returnObserved s l.1) s₀ ls s → ∀ v, s.phase v = .idle →
      (s.borrowed.get? v).map (·.capacityBytes) = s.pool.borrowReservations.get? v) ∧
    (∀ l t v, system.step s l t → s.pool.borrowReservations.get? v ≠ none → t.pool.borrowReservations.get? v = none →
      ∃ before m o, Run system s₀ before m ∧ Evidence m v before o.1 ∧
        Since (fun x => x.1.vm = some v) before o ls) := by
  constructor
  · intro hok v hv
    have hm := reachable_matched ⟨s₀, ls, h₀, hr⟩ v
    have hk := reachable_kept ⟨s₀, ls, h₀, hok⟩ v
    have hsteady : (s.view v).phase.Steady := by
      simp only [view, hv]
      rfl
    cases hres : s.pool.borrowReservations.get? v with
    | none =>
      cases he : s.borrowed.get? v with
      | none => rfl
      | some entry => exact absurd hres (hk hsteady entry he)
    | some b =>
      obtain ⟨entry, he, hcap⟩ := hm.entered hsteady b hres
      simp only [view] at he
      rw [he, Option.map_some, hcap]
  · intro l t v hstep hsome hnone
    by_cases hvm : l.1.vm = some v
    · obtain ⟨cause, hphase⟩ := (local_step hstep hvm).released hsome hnone
      exact releasing_cleared h₀ hr hphase
    · have := congrArg View.reservation (view_other hstep hvm)
      exact absurd (this.symm.trans hnone) hsome

def emptyPool (headroom : Option ℤ) : Pool ℤ :=
  ⟨50, 50, headroom, 0, 0, false, 0, ∅, ∅, (∅ : PyDict Sandbox Unit), ∅, ∅, 0⟩

theorem emptyPool_start : Start { pool := emptyPool none } ∧ Start { pool := emptyPool (some 1) } :=
  ⟨⟨50, 50, none, 0, 0, false, _, rfl, rfl⟩, ⟨50, 50, some 1, 0, 0, false, _, rfl, rfl⟩⟩

-- a borrow of five bytes that settles with `shared` bytes in the parent cgroup
def borrowRun (shared : ℤ) : List (Action ℤ) :=
  [.borrow ['v'] 5, .locate ['v'] (some 1), .observe ['v'] (some .localNode), .decide ['v'],
    .parentShared ['v'] (some 0), .reserve ['v'], .record ['v'], .rebind ['v'] .done, .leafShared ['v'] 1 (some shared),
    .parentShared ['v'] (some shared)]

def returnRun (shared : ℤ) : List (Action ℤ) :=
  [.returnLocal ['v'], .locate ['v'] (some 1), .observe ['v'] (some .sharedNode), .rebind ['v'] .done,
    .leafShared ['v'] 1 (some shared)]

theorem borrow_ledgers_agree_residual :
    let kept := (trace (guarded returnObserved next) { pool := emptyPool none }
      (borrowRun 3 ++ returnRun 1 ++ [.parentShared ['v'] (some 1)])).1
    let back := trace next { pool := emptyPool none } (borrowRun 3 ++ returnRun 0)
    kept.pool.borrowReservations.get? ['v'] = some 5 ∧
      (kept.borrowed.get? ['v']).map (·.capacityBytes) = kept.pool.borrowReservations.get? ['v'] ∧
      ∃ before m o, Run system { pool := emptyPool none } before m ∧ Evidence m ['v'] before o.1 ∧
        Since (fun x => x.1.vm = some ['v']) before o back.2 := by
  intro kept back
  have hr := run_guarded Start next returnObserved { pool := emptyPool none }
    (borrowRun 3 ++ returnRun 1 ++ [.parentShared ['v'] (some 1)])
  have hback := run_trace Start next { pool := emptyPool none } (borrowRun 3 ++ returnRun 0)
  have hfreed : (next back.1 (.release ['v'])).map (·.1.pool.borrowReservations.get? ['v']) = some none := by
    decide +kernel
  obtain ⟨⟨t, e⟩, hstep, hnone⟩ := Option.map_eq_some_iff.mp hfreed
  refine ⟨by decide +kernel, ?_, ?_⟩
  · exact (borrow_ledgers_agree emptyPool_start.1 hr.of_restrict).1 hr ['v'] (by decide +kernel)
  · exact (borrow_ledgers_agree emptyPool_start.1 hback).2 (.release ['v'], e) t ['v'] hstep (by decide +kernel) hnone

theorem return_loses_reservation : ∃ s₀ s ls, system.start s₀ ∧ Run (system (τ := ℤ)) s₀ ls s ∧ s.phase ['v'] = .idle ∧
    (s.borrowed.get? ['v']).map (·.capacityBytes) = some 5 ∧ s.pool.borrowReservations.get? ['v'] = none := by
  refine ⟨{ pool := emptyPool none }, _, _, emptyPool_start.1, run_trace Start next _
    (borrowRun 3 ++ returnRun 0 ++ [.release ['v'], .parentShared ['v'] none]), ?_⟩
  decide +kernel

/-- The borrow that decides now takes over the reservation that a return has left. -/
def reuses (s : Borrower τ) (v : Sandbox) : Bool :=
  match s.phase v, s.borrowed.get? v with
  | .deciding capacity leaf before, some entry => before = .localNode ∧ entry.capacityBytes = capacity ∧
    entry.leaf = leaf
  | _, _ => false

/-- A borrow that reuses a retained reservation finds that no observation has settled it yet. -/
def borrowUnsettled (s : Borrower τ) : Action τ → Bool
  | .decide v => s.reuses v → (s.pool.unobservedBorrows.get? v).isSome
  | _ => true

theorem reachable_charged {s : Borrower τ} (h : Reachable (system.restrict fun s l => borrowUnsettled s l.1) s) :
    ∀ v, (s.view v).Charged := by
  have hboth : (∀ v, (s.view v).Matched) ∧ ∀ v, (s.view v).Charged := by
    apply h.invariant (I := fun s => (∀ v, (s.view v).Matched) ∧ ∀ v, (s.view v).Charged)
    · intro s hs
      constructor
      · intro v
        rw [start_view hs]
        exact .steady rfl (by simp) (by simp) (by simp)
      · intro v
        rw [start_view hs]
        simp [View.Charged, Phase.rebindingTo]
    · rintro s l t ⟨hm, hc⟩ ⟨hstep, hok⟩
      constructor
      · exact views_step hstep hm fun v _ hl => hl.matched (hm v)
      · apply views_step hstep hc
        intro v _ hl
        apply hl.charged (hm v) (hc v)
        intro hact entry hentry hx
        have hphase : s.phase v = .deciding entry.capacityBytes entry.leaf .localNode := hx
        have hborrowed : s.borrowed.get? v = some entry := hentry
        rw [hact] at hok
        exact of_decide_eq_true hok (by simp [reuses, hphase, hborrowed])
  exact hboth.2

theorem pending_includes {s : Borrower τ} (hm : ∀ v, (s.view v).Matched) {v : Sandbox} {c : ℤ}
    (hr : s.pool.borrowReservations.get? v = some c) (hu : (s.pool.unobservedBorrows.get? v).isSome) :
    c ≤ s.pool.pendingBorrowBytes := by
  obtain ⟨x, hx⟩ := Option.isSome_iff_exists.mp hu
  have hle := PyDict.le_sum (d := s.pool.unobservedBorrows)
    (f := fun id _ => (s.pool.borrowReservations.get? id).getD 0) ?_ hx
  · simpa [Pool.pendingBorrowBytes, hr] using hle
  · intro u _ _
    cases hb : s.pool.borrowReservations.get? u with
    | none => exact le_refl 0
    | some b => exact le_of_lt ((hm u).positive b hb)

/-- What the pool holds besides the other borrows: files, observed residency, headroom and the whole VM. -/
def chargedWith (p : Pool τ) (headroom capacity : ℤ) : ℤ :=
  p.externalWarmBytes + max p.externalSharedLiveBytes p.observedSharedLiveBytes + headroom + capacity +
    p.reservedBytes + p.committedBytes

theorem rebind_charged {s : Borrower τ} (h : Reachable (system.restrict fun s l => borrowUnsettled s l.1) s)
    {v : Sandbox} {headroom capacity : ℤ} (hh : s.pool.borrowResidentHeadroomBytes = some headroom)
    (hv : (s.phase v).rebindingTo = some capacity) :
    chargedWith s.pool headroom capacity ≤ s.pool.usage ∧
      (∀ key bytes q, (Pool.reserve key bytes).run s.pool = (.ok (), q) →
        chargedWith s.pool headroom capacity + bytes ≤ s.pool.capacityBytes) ∧
      (∀ u bytes q, (Pool.reserveBorrow u bytes).run s.pool = (.ok (), q) →
        chargedWith s.pool headroom capacity + bytes ≤ s.pool.capacityBytes) := by
  obtain ⟨hr, hu⟩ := reachable_charged h v capacity hv
  have hpending := pending_includes (reachable_matched h.of_restrict) hr hu
  have hne : s.pool.borrowReservations.entries ≠ [] := by
    intro hnil
    simp only [view] at hr
    rw [PyDict.get?_eq_some, hnil] at hr
    cases hr
  have hcharge : chargedWith s.pool headroom capacity ≤ s.pool.usage := by
    simp only [chargedWith, Pool.usage, Pool.borrowCharge, hh, if_neg hne]
    omega
  refine ⟨hcharge, ?_, ?_⟩
  · intro key bytes q hrun
    rcases Pool.reserve_cases s.pool key bytes with ⟨e, _, he⟩ | ⟨q', rfl, hq, _, _, husage, hfits⟩
    · rw [he] at hrun
      cases hrun
    · omega
  · intro u bytes q hrun
    rcases Pool.reserveBorrow_cases s.pool u bytes with ⟨e, _, he⟩ | ⟨q', rfl, hq, _, hnew, _, hfits⟩
    · rw [he] at hrun
      cases hrun
    · rw [Pool.usage_reserveBorrow hnew] at hfits
      have hfirst : s.pool.firstBorrowHeadroom = 0 := by
        simp [Pool.firstBorrowHeadroom, hh, hne]
      omega

theorem rebind_charged_first :
    let t := (trace (guarded borrowUnsettled next) { pool := emptyPool (some 1) } ((borrowRun 3).take 7)).1
    (t.phase ['v']).rebindingTo = some 5 ∧ chargedWith t.pool 1 5 ≤ t.pool.usage := by
  intro t
  have ht : Reachable (system.restrict fun s l => borrowUnsettled s l.1) t :=
    ⟨_, _, emptyPool_start.2, run_guarded Start next borrowUnsettled _ _⟩
  refine ⟨by decide +kernel, ?_⟩
  exact (@rebind_charged ℤ t ht ['v'] 1 5 (by decide +kernel) (by decide +kernel)).1

theorem reused_rebind_uncharged : ∃ s : Borrower ℤ, Reachable system s ∧
    s.pool.borrowResidentHeadroomBytes = some 1 ∧ (s.phase ['v']).rebindingTo = some 5 ∧
    s.pool.usage < chargedWith s.pool 1 5 ∧ ((Pool.reserveBorrow ['w'] 45).run s.pool).1 = .ok () ∧
    s.pool.capacityBytes < chargedWith s.pool 1 5 + 45 := by
  refine ⟨(trace next { pool := emptyPool (some 1) } (borrowRun 3 ++ returnRun 1 ++ [.parentShared ['v'] (some 1)] ++
    (borrowRun 3).take 4)).1, (Reachable.start (T := system) emptyPool_start.2).trace _, ?_⟩
  decide +kernel

end Borrower

end ClawBox.Numa
