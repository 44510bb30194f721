import ClawBox.Activity.Safety

namespace ClawBox.Activity

open Admission Policy Transition
open Monitor (Thread)

namespace State

variable {s t : State} {x y : Session} {e f : ExecutionId} {i j : Thread} {k : Task} {stage : Stage} {a : Action}

def isPending (s : State) (x : Session) (e : ExecutionId) : Prop := ((s.desks x).pendingAdmissions.get? e).isSome

def isAdmitted (s : State) (x : Session) (e : ExecutionId) : Prop := ((s.desks x).activeReservations.get? e).isSome

structure Guarded (s : State) : Prop where
  registered : ∀ i x e stage, s.tasks.get? i = some (.admission x e stage) → (s.sessions.get? x).isSome
  pending : ∀ i x e stage, s.tasks.get? i = some (.admission x e stage) → stage ≠ .failed → s.isPending x e
  alone : ∀ i j x e stage stage', s.tasks.get? i = some (.admission x e stage) →
    s.tasks.get? j = some (.admission x e stage') → i = j
  settling : ∀ i x b, s.tasks.get? i = some (.settle x b) →
    (s.desks x).reservationLock = some i ∧ (b = false → (s.desks x).busy = false)
  marked : ∀ i x e stage, s.tasks.get? i = some (.admission x e stage) → stage.marked = true → s.isActive x = true
  admitted : ∀ x e, s.isAdmitted x e → s.isActive x = true

def Fresh (t : State) (i : Thread) : Task → Prop
  | .admission x e stage =>
    (t.sessions.get? x).isSome ∧ (stage ≠ .failed → t.isPending x e) ∧ (stage.marked = true → t.isActive x = true) ∧
      ∀ j stage', t.tasks.get? j = some (.admission x e stage') → j = i
  | .settle x b => (t.desks x).reservationLock = some i ∧ (b = false → (t.desks x).busy = false)
  | _ => True

theorem Guarded.next_of (h : s.Guarded) (i : Thread) (htasks : ∀ j, j ≠ i → t.tasks.get? j = s.tasks.get? j)
    (hreg : ∀ y, (t.sessions.get? y).isSome = (s.sessions.get? y).isSome)
    (hpend : ∀ j y f stage, j ≠ i → s.tasks.get? j = some (.admission y f stage) → s.isPending y f → t.isPending y f)
    (hlock : ∀ y, ((s.desks y).reservationLock = none ∨ (s.desks y).reservationLock = some i) ∨
      Kept (s.desks y) (t.desks y))
    (hmark : ∀ j y f stage, j ≠ i → s.tasks.get? j = some (.admission y f stage) → stage.marked = true →
      t.isActive y = true)
    (hadmitted : ∀ y f, t.isAdmitted y f → t.isActive y = true)
    (hnew : ∀ k, t.tasks.get? i = some k → t.Fresh i k) : t.Guarded := by
  constructor
  · intro j y f stage hj
    by_cases hji : j = i
    · subst hji
      exact (hnew _ hj).1
    · rw [hreg]
      exact h.registered j y f stage (htasks j hji ▸ hj)
  · intro j y f stage hj hf
    by_cases hji : j = i
    · subst hji
      exact (hnew _ hj).2.1 hf
    · rw [htasks j hji] at hj
      exact hpend j y f stage hji hj (h.pending j y f stage hj hf)
  · intro j l y f stage stage' hj hl
    by_cases hji : j = i
    · subst hji
      exact ((hnew _ hj).2.2.2 l stage' hl).symm
    · by_cases hli : l = i
      · subst hli
        exact (hnew _ hl).2.2.2 j stage hj
      · exact h.alone j l y f stage stage' (htasks j hji ▸ hj) (htasks l hli ▸ hl)
  · intro j y b hj
    by_cases hji : j = i
    · subst hji
      exact hnew _ hj
    · rw [htasks j hji] at hj
      obtain ⟨hheld, hbusy⟩ := h.settling j y b hj
      rcases hlock y with (hfree | hown) | hkept
      · rw [hfree] at hheld
        cases hheld
      · rw [hown] at hheld
        exact absurd (Option.some.inj hheld).symm hji
      · refine ⟨hkept.lock.trans hheld, fun hb => ?_⟩
        simpa only [Desk.busy, hkept.active, hkept.pending] using hbusy hb
  · intro j y f stage hj hm
    by_cases hji : j = i
    · subst hji
      exact (hnew _ hj).2.2.1 hm
    · exact hmark j y f stage hji (htasks j hji ▸ hj) hm
  · exact hadmitted

theorem Guarded.calm (h : s.Guarded) (i : Thread) (htasks : ∀ j, j ≠ i → t.tasks.get? j = s.tasks.get? j)
    (hreg : ∀ y, (t.sessions.get? y).isSome = (s.sessions.get? y).isSome)
    (hdesk : ∀ y, Kept (s.desks y) (t.desks y)) (hactive : ∀ y, s.isActive y = true → t.isActive y = true)
    (hnew : ∀ k, t.tasks.get? i = some k → t.Fresh i k) : t.Guarded := by
  refine h.next_of i htasks hreg ?_ (fun y => .inr (hdesk y)) ?_ ?_ hnew
  · intro j y f stage _ _ hp
    unfold isPending at hp ⊢
    rwa [(hdesk y).pending]
  · intro j y f stage _ hj hm
    exact hactive y (h.marked j y f stage hj hm)
  · intro y f hf
    unfold isAdmitted at hf
    rw [(hdesk y).active] at hf
    exact hactive y (h.admitted y f hf)

theorem get?_setTask_ne (h : j ≠ i) : (s.setTask i k).tasks.get? j = s.tasks.get? j := PyDict.get?_set_ne _ k h

theorem get?_finish_ne (h : j ≠ i) : (s.finish i).tasks.get? j = s.tasks.get? j := PyDict.get?_pop_ne _ h

theorem registered_setToolActive (now : ℤ) (b : Bool) (y : Session) :
    ((s.setToolActive x now b).sessions.get? y).isSome = (s.sessions.get? y).isSome :=
  registered_changeSession (active now b)

theorem isActive_setToolActive_ne (now : ℤ) (b : Bool) (h : y ≠ x) :
    (s.setToolActive x now b).isActive y = s.isActive y := by
  unfold isActive setToolActive
  rw [get?_changeSession, if_neg h]

theorem Guarded.alone_of (h : s.Guarded) (hi : s.tasks.get? i = some (.admission x e stage))
    (htasks : ∀ j, j ≠ i → t.tasks.get? j = s.tasks.get? j) (j : Thread) (stage' : Stage)
    (hj : t.tasks.get? j = some (.admission x e stage')) : j = i := by
  by_contra hne
  rw [htasks j hne] at hj
  exact hne (h.alone j i x e stage' stage hj hi)

def othersProtected (s : State) (i : Thread) (x : Session) : Bool :=
  !(s.desks x).activeReservations.entries.isEmpty ||
    s.tasks.entries.any fun p => p.1 != i && p.2.session = x && p.2.marked

/-- No failed admission takes away a mark that another execution relies on. -/
def cond (s : State) : Thread × Action → Bool
  | (i, a) =>
    match s.tasks.get? i with
    | none => true
    | some k => !clearsMark k a || !s.othersProtected i k.session

theorem not_admitted_of_others (h : s.othersProtected i x = false) (e : ExecutionId) : ¬s.isAdmitted x e := by
  intro he
  obtain ⟨u, hu⟩ := Option.isSome_iff_exists.1 he
  have hmem := PyDict.mem_of_get? hu
  simp only [othersProtected, Bool.or_eq_false_iff, Bool.not_eq_false', List.isEmpty_iff] at h
  rw [h.1] at hmem
  cases hmem

theorem not_marked_of_others (h : s.othersProtected i x = false) (hj : s.tasks.get? j = some (.admission x e stage))
    (hne : j ≠ i) : stage.marked = false := by
  simp only [othersProtected, Bool.or_eq_false_iff, List.any_eq_false] at h
  have := h.2 _ (PyDict.mem_of_get? hj)
  simpa [hne, Task.session, Task.marked] using this

theorem isPending_discard {y : Session} (hne : ¬(y = x ∧ f = e)) (hp : s.isPending y f) :
    (s.changeDesk x fun d => { d with pendingAdmissions := d.pendingAdmissions.discard e }).isPending y f := by
  unfold isPending at hp ⊢
  simp only [changeDesk_desks, Function.update_apply]
  split_ifs with hy
  · subst hy
    have hf : f ≠ e := fun hf => hne ⟨rfl, hf⟩
    simpa [PySet.discard, PyDict.get?_pop_ne _ hf] using hp
  · exact hp

theorem lock_or_kept {g : Desk → Desk} (hl : (s.desks x).reservationLock = none) (y : Session) :
    ((s.desks y).reservationLock = none ∨ (s.desks y).reservationLock = some i) ∨
      Kept (s.desks y) ((s.changeDesk x g).desks y) := by
  simp only [changeDesk_desks, Function.update_apply]
  split_ifs with hy
  · subst hy
    exact .inl (.inl hl)
  · exact .inr (.refl _)

theorem Guarded.leaves (h : s.Guarded) (hi : s.tasks.get? i = some (.admission x e stage))
    (hl : (s.desks x).reservationLock = none) (hs : t.sessions = s.sessions)
    (hd : t.desks = (s.changeDesk x fun d => { d with pendingAdmissions := d.pendingAdmissions.discard e }).desks)
    (htasks : ∀ j, j ≠ i → t.tasks.get? j = s.tasks.get? j)
    (hnew : ∀ k, t.tasks.get? i = some k → t.Fresh i k) : t.Guarded := by
  have hactive : ∀ y, t.isActive y = s.isActive y := fun y => by unfold isActive; rw [hs]
  refine h.next_of i htasks (fun y => by rw [hs]) ?_ ?_ ?_ ?_ hnew
  · intro j y f stage' hne hj hp
    have hother : ¬(y = x ∧ f = e) := by
      rintro ⟨rfl, rfl⟩
      exact hne (h.alone j i y f stage' stage hj hi)
    have := isPending_discard (e := e) (x := x) hother hp
    unfold isPending at this ⊢
    rwa [hd]
  · intro y
    rw [hd]
    exact lock_or_kept hl y
  · intro j y f stage' _ hj hm
    rw [hactive]
    exact h.marked j y f stage' hj hm
  · intro y f hf
    rw [hactive]
    apply h.admitted y f
    unfold isAdmitted at hf ⊢
    rw [hd] at hf
    simp only [changeDesk_desks, Function.update_apply] at hf
    split_ifs at hf with hy
    · exact hy ▸ hf
    · exact hf

theorem Guarded.published (h : s.Guarded) (hi : s.tasks.get? i = some (.admission x e .admitted))
    (hl : (s.desks x).reservationLock = none) (hs : t.sessions = s.sessions)
    (hd : ∀ y, Kept ((s.changeDesk x fun d =>
      { d with
        pendingAdmissions := d.pendingAdmissions.discard e
        activeReservations := d.activeReservations.add e }).desks y) (t.desks y))
    (ht : t.tasks = s.tasks.pop i ∨ t.tasks = s.tasks.set i (.admission x e .failed)) : t.Guarded := by
  have hactive : ∀ y, t.isActive y = s.isActive y := fun y => by unfold isActive; rw [hs]
  have htasks : ∀ j, j ≠ i → t.tasks.get? j = s.tasks.get? j := by
    intro j hne
    rcases ht with ht | ht
    · rw [ht, PyDict.get?_pop_ne _ hne]
    · rw [ht, PyDict.get?_set_ne _ _ hne]
  refine h.next_of i htasks (fun y => by rw [hs]) ?_ ?_ ?_ ?_ ?_
  · intro j y f stage' hne hj hp
    have hother : ¬(y = x ∧ f = e) := by
      rintro ⟨rfl, rfl⟩
      exact hne (h.alone j i y f stage' .admitted hj hi)
    have := isPending_discard (e := e) (x := x) hother hp
    unfold isPending at this ⊢
    rw [(hd y).pending]
    simp only [changeDesk_desks, Function.update_apply] at this ⊢
    split_ifs at this ⊢ <;> exact this
  · intro y
    by_cases hy : y = x
    · subst hy
      exact .inl (.inl hl)
    · have := hd y
      simp only [changeDesk_desks, Function.update_of_ne hy] at this
      exact .inr this
  · intro j y f stage' _ hj hm
    rw [hactive]
    exact h.marked j y f stage' hj hm
  · intro y f hf
    rw [hactive]
    by_cases hy : y = x
    · subst hy
      exact h.marked i y e .admitted hi rfl
    · apply h.admitted y f
      unfold isAdmitted at hf ⊢
      rw [(hd y).active] at hf
      simpa only [changeDesk_desks, Function.update_of_ne hy] using hf
  · intro k hk
    rcases ht with ht | ht
    · rw [ht, PyDict.get?_pop_self] at hk
      cases hk
    · rw [ht, PyDict.get?_set_self] at hk
      obtain rfl := Option.some.inj hk
      refine ⟨?_, by simp, by simp [Stage.marked], h.alone_of hi htasks⟩
      rw [hs]
      exact h.registered i x e .admitted hi

theorem Guarded.admits (h : s.Guarded) (hi : s.tasks.get? i = some (.admission x e stage))
    (hc : clearsMark (.admission x e stage) a = true → s.othersProtected i x = false)
    (ha : Admits s i x e stage a t) : t.Guarded := by
  have hreg := h.registered i x e stage hi
  cases ha with
  | @moves _ stage' _ _ hs hd ht hm hf =>
    have htasks : ∀ j, j ≠ i → t.tasks.get? j = s.tasks.get? j := fun j hne => by rw [ht, PyDict.get?_set_ne _ _ hne]
    have hactive : ∀ y, t.isActive y = s.isActive y := fun y => by unfold isActive; rw [hs]
    refine h.calm i htasks (fun y => by rw [hs]) hd (fun y hy => (hactive y).trans hy) fun k hk => ?_
    rw [ht, PyDict.get?_set_self] at hk
    obtain rfl := Option.some.inj hk
    refine ⟨by rw [hs]; exact hreg, fun _ => ?_, fun hm' => ?_, h.alone_of hi htasks⟩
    · have := h.pending i x e stage hi hf
      unfold isPending at this ⊢
      rwa [(hd x).pending]
    · rw [hactive]
      exact h.marked i x e stage hi (hm hm')
  | @marks _ stage' _ now hx hf =>
    have htasks : ∀ j, j ≠ i → ((s.setToolActive x now true).setTask i (.admission x e stage')).tasks.get? j =
        s.tasks.get? j :=
      fun j hne => by rw [get?_setTask_ne hne, setToolActive, changeSession_tasks]
    refine h.calm i htasks (registered_setToolActive now true) ?_ ?_ fun k hk => ?_
    · intro y
      rw [setTask_desks, setToolActive, changeSession_desks]
      exact .refl _
    · intro y hy
      by_cases hyx : y = x
      · subst hyx
        exact isActive_setToolActive now hreg true
      · exact (isActive_setToolActive_ne now true hyx).trans hy
    · rw [setTask_tasks, PyDict.get?_set_self] at hk
      obtain rfl := Option.some.inj hk
      refine ⟨(registered_setToolActive now true x).trans hreg, fun _ => ?_, fun _ => ?_, h.alone_of hi htasks⟩
      · have := h.pending i x e stage hi hf
        unfold isPending at this ⊢
        rwa [setTask_desks, setToolActive, changeSession_desks]
      · exact isActive_setToolActive now hreg true
  | @clears _ stage' _ now hclear hm hf =>
    have hothers := hc hclear
    have htasks : ∀ j, j ≠ i → ((s.setToolActive x now false).setTask i (.admission x e stage')).tasks.get? j =
        s.tasks.get? j :=
      fun j hne => by rw [get?_setTask_ne hne, setToolActive, changeSession_tasks]
    have hdesks : ((s.setToolActive x now false).setTask i (.admission x e stage')).desks = s.desks := by
      rw [setTask_desks, setToolActive, changeSession_desks]
    refine h.next_of i htasks (registered_setToolActive now false) ?_ ?_ ?_ ?_ fun k hk => ?_
    · intro j y f _ _ _ hp
      unfold isPending at hp ⊢
      rwa [hdesks]
    · intro y
      rw [hdesks]
      exact .inr (.refl _)
    · intro j y f other hne hj hm'
      by_cases hyx : y = x
      · subst hyx
        rw [not_marked_of_others hothers hj hne] at hm'
        cases hm'
      · exact (isActive_setToolActive_ne now false hyx).trans (h.marked j y f other hj hm')
    · intro y f hf'
      unfold isAdmitted at hf'
      rw [hdesks] at hf'
      by_cases hyx : y = x
      · subst hyx
        exact absurd hf' (not_admitted_of_others hothers f)
      · exact (isActive_setToolActive_ne now false hyx).trans (h.admitted y f hf')
    · rw [setTask_tasks, PyDict.get?_set_self] at hk
      obtain rfl := Option.some.inj hk
      refine ⟨(registered_setToolActive now false x).trans hreg, fun _ => ?_, fun hm' => ?_, h.alone_of hi htasks⟩
      · have := h.pending i x e stage hi hf
        unfold isPending at this ⊢
        rwa [hdesks]
      · rw [hm] at hm'
        cases hm'
  | refused hl =>
    refine h.leaves hi hl rfl rfl (fun j hne => get?_finish_ne hne) fun k hk => ?_
    rw [finish_tasks, PyDict.get?_pop_self] at hk
    cases hk
  | published hl hs hd ht => exact h.published hi hl hs hd ht
  | discards hl =>
    refine h.leaves hi hl rfl rfl (fun j hne => get?_setTask_ne hne) fun k hk => ?_
    rw [setTask_tasks, PyDict.get?_set_self] at hk
    obtain rfl := Option.some.inj hk
    trivial

theorem Guarded.aside (h : s.Guarded) (i : Thread) (hs : ∀ y, (t.sessions.get? y).isSome = (s.sessions.get? y).isSome)
    (hactive : ∀ y, t.isActive y = s.isActive y) (hd : t.desks = s.desks)
    (ht : t.tasks = s.tasks ∧ s.tasks.get? i = none ∨ t.tasks = s.tasks.pop i ∨
      ∃ k, t.tasks = s.tasks.set i k ∧ t.Fresh i k) : t.Guarded := by
  refine h.calm i ?_ hs (fun y => hd ▸ .refl _) (fun y hy => (hactive y).trans hy) fun k hk => ?_
  · intro j hne
    rcases ht with ⟨ht, -⟩ | ht | ⟨k, ht, -⟩
    · rw [ht]
    · rw [ht, PyDict.get?_pop_ne _ hne]
    · rw [ht, PyDict.get?_set_ne _ _ hne]
  · rcases ht with ⟨ht, hnone⟩ | ht | ⟨l, ht, hl⟩
    · rw [ht, hnone] at hk
      cases hk
    · rw [ht, PyDict.get?_pop_self] at hk
      cases hk
    · rw [ht, PyDict.get?_set_self] at hk
      obtain rfl := Option.some.inj hk
      exact hl

theorem Guarded.popped (h : s.Guarded) (hi : s.tasks.get? i = none) (hu : s.pop x e = some t) :
    t.Guarded ∧ t.tasks = s.tasks := by
  unfold pop at hu
  split_ifs at hu with hl
  obtain rfl := Option.some.inj hu
  refine ⟨?_, rfl⟩
  refine h.next_of i (fun _ _ => rfl) (fun _ => rfl) ?_ ?_ ?_ ?_ fun k hk => ?_
  · intro j y f stage _ _ hp
    unfold isPending at hp ⊢
    simp only [changeDesk_desks, Function.update_apply]
    split_ifs with hy
    · exact hy ▸ hp
    · exact hp
  · exact lock_or_kept (by simpa [free] using hl.1)
  · intro j y f stage _ hj hm
    exact h.marked j y f stage hj hm
  · intro y f hf
    apply h.admitted y f
    unfold isAdmitted at hf ⊢
    simp only [changeDesk_desks, Function.update_apply] at hf
    split_ifs at hf with hy
    · subst hy
      simp only [PySet.discard, PyDict.get?_pop] at hf
      split_ifs at hf with hfe
      · cases hf
      · exact hf
    · exact hf
  · rw [changeDesk_tasks, hi] at hk
    cases hk

theorem Guarded.queue (h : s.Guarded) (hl : (s.desks x).reservationLock = none)
    (hreg : (s.sessions.get? x).isSome) (hnew : s.admitting x e = false) :
    ((s.changeDesk x fun d => { d with pendingAdmissions := d.pendingAdmissions.add e }).setTask i
      (.admission x e .queued)).Guarded := by
  have hothers : ∀ j stage, s.tasks.get? j ≠ some (.admission x e stage) := by
    intro j stage hj
    simp only [admitting, List.any_eq_false] at hnew
    have := hnew _ (List.mem_map_of_mem (PyDict.mem_of_get? hj))
    simp at this
  refine h.next_of i (fun j hne => get?_setTask_ne hne) (fun _ => rfl) ?_ ?_ ?_ ?_ fun k hk => ?_
  · intro j y f stage _ _ hp
    unfold isPending at hp ⊢
    simp only [setTask_desks, changeDesk_desks, Function.update_apply]
    split_ifs with hy
    · subst hy
      simp only [PySet.add, PyDict.get?_set]
      split_ifs
      · rfl
      · exact hp
    · exact hp
  · intro y
    rw [setTask_desks]
    exact lock_or_kept hl y
  · intro j y f stage _ hj hm
    exact h.marked j y f stage hj hm
  · intro y f hf
    apply h.admitted y f
    unfold isAdmitted at hf ⊢
    simp only [setTask_desks, changeDesk_desks, Function.update_apply] at hf
    split_ifs at hf with hy
    · exact hy ▸ hf
    · exact hf
  · rw [setTask_tasks, PyDict.get?_set_self] at hk
    obtain rfl := Option.some.inj hk
    refine ⟨hreg, fun _ => ?_, by simp [Stage.marked], fun j stage hj => ?_⟩
    · simp [isPending, PySet.add]
    · by_contra hne
      rw [get?_setTask_ne hne, changeDesk_tasks] at hj
      exact hothers j stage hj

theorem Guarded.lockBoth (h : s.Guarded) (hl : (s.desks x).reservationLock = none) : (s.lockBoth i x).Guarded := by
  unfold State.lockBoth
  refine h.next_of i (fun j hne => get?_setTask_ne hne) (fun _ => rfl) ?_ ?_ ?_ ?_ fun k hk => ?_
  · intro j y f stage _ _ hp
    unfold isPending at hp ⊢
    simp only [setTask_desks, changeDesk_desks, Function.update_apply]
    split_ifs with hy
    · exact hy ▸ hp
    · exact hp
  · intro y
    rw [setTask_desks]
    exact lock_or_kept hl y
  · intro j y f stage _ hj hm
    exact h.marked j y f stage hj hm
  · intro y f hf
    apply h.admitted y f
    unfold isAdmitted at hf ⊢
    simp only [setTask_desks, changeDesk_desks, Function.update_apply] at hf
    split_ifs at hf with hy
    · exact hy ▸ hf
    · exact hf
  · rw [setTask_tasks, PyDict.get?_set_self] at hk
    obtain rfl := Option.some.inj hk
    refine ⟨by simp, fun hb => ?_⟩
    simpa [Desk.busy] using hb

theorem Desk.busy_of_pending {d : Desk} (h : (d.pendingAdmissions.get? e).isSome) : d.busy = true := by
  obtain ⟨u, hu⟩ := Option.isSome_iff_exists.1 h
  have hne := List.ne_nil_of_mem (PyDict.mem_of_get? hu)
  simp [Desk.busy, hne]

theorem Desk.busy_of_active {d : Desk} (h : (d.activeReservations.get? e).isSome) : d.busy = true := by
  obtain ⟨u, hu⟩ := Option.isSome_iff_exists.1 h
  have hne := List.ne_nil_of_mem (PyDict.mem_of_get? hu)
  simp [Desk.busy, hne]

theorem Guarded.settle {b : Bool} (h : s.Guarded) (hi : s.tasks.get? i = some (.settle x b)) (now : ℤ) :
    (((s.setToolActive x now b).changeDesk x fun d => { d with waitLock := none, reservationLock := none }).finish
      i).Guarded := by
  obtain ⟨hlock, hidle⟩ := h.settling i x b hi
  have hdesks : (s.setToolActive x now b).desks = s.desks := by rw [setToolActive, changeSession_desks]
  -- where the mark goes away nothing is pending and nothing admitted
  have hactive : ∀ y f, s.isPending y f ∨ s.isAdmitted y f → (s.sessions.get? y).isSome → s.isActive y = true →
      (s.setToolActive x now b).isActive y = true := by
    intro y f hp hreg hy
    by_cases hyx : y = x
    · subst hyx
      cases b with
      | true => exact isActive_setToolActive now hreg true
      | false =>
        have hbusy : (s.desks y).busy = true := by
          rcases hp with hp | hp
          · exact Desk.busy_of_pending hp
          · exact Desk.busy_of_active hp
        rw [hidle rfl] at hbusy
        cases hbusy
    · exact (isActive_setToolActive_ne now b hyx).trans hy
  have hreg : ∀ y, s.isActive y = true → (s.sessions.get? y).isSome := by
    intro y hy
    unfold isActive at hy
    cases hs : s.sessions.get? y with
    | none => simp [hs] at hy
    | some st => rfl
  refine h.next_of i ?_ (registered_setToolActive now b) ?_ ?_ ?_ ?_ fun k hk => ?_
  · intro j hne
    rw [get?_finish_ne hne, changeDesk_tasks, setToolActive, changeSession_tasks]
  · intro j y f stage _ _ hp
    unfold isPending at hp ⊢
    simp only [finish_desks, changeDesk_desks, Function.update_apply, hdesks]
    split_ifs with hy
    · exact hy ▸ hp
    · exact hp
  · intro y
    simp only [finish_desks, changeDesk_desks, Function.update_apply, hdesks]
    split_ifs with hy
    · subst hy
      exact .inl (.inr hlock)
    · exact .inr (.refl _)
  · intro j y f stage _ hj hm
    have hf : stage ≠ .failed := by
      rintro rfl
      cases hm
    have hy := h.marked j y f stage hj hm
    exact hactive y f (.inl (h.pending j y f stage hj hf)) (hreg y hy) hy
  · intro y f hf
    have hf' : s.isAdmitted y f := by
      unfold isAdmitted at hf ⊢
      simp only [finish_desks, changeDesk_desks, Function.update_apply, hdesks] at hf
      split_ifs at hf with hy
      · exact hy ▸ hf
      · exact hf
    have hy := h.admitted y f hf'
    exact hactive y f (.inr hf') (hreg y hy) hy
  · rw [finish_tasks, PyDict.get?_pop_self] at hk
    cases hk

theorem Guarded.start {conf : Conf} (h : s.Guarded) (hi : s.tasks.get? i = none) (ha : start conf s i a = some t) :
    t.Guarded := by
  have hclaim : ∀ y k, t = (s.changeSession y claim).setTask i k → k.claims = true → t.Guarded := by
    rintro y k rfl hk
    refine h.aside i (fun _ => registered_changeSession claim) (fun _ => isActive_changeSession claim fun _ => rfl)
      (by simp)
      (.inr (.inr ⟨k, by simp, ?_⟩))
    cases k <;> trivial
  unfold State.start at ha
  split at ha
  · split_ifs at ha with hg
    obtain rfl := Option.some.inj ha
    exact h.queue (by simpa [free] using hg.1) hg.2.1 (by simpa using hg.2.2)
  · obtain ⟨u, hu, rfl⟩ := Option.map_eq_some_iff.1 ha
    obtain ⟨hg, htasks⟩ := h.popped hi hu
    split_ifs
    · exact hg
    · exact hg.aside i (fun _ => rfl) (fun _ => rfl) rfl (.inr (.inr ⟨_, rfl, trivial⟩))
  · obtain ⟨u, hu, rfl⟩ := Option.map_eq_some_iff.1 ha
    obtain ⟨hg, htasks⟩ := h.popped hi hu
    split_ifs
    · exact hg
    · exact hg.aside i (fun _ => rfl) (fun _ => rfl) rfl (.inr (.inr ⟨_, rfl, trivial⟩))
  · obtain rfl := Option.some.inj ha
    refine h.aside i (fun _ => registered_changeSession _) (fun _ => isActive_changeSession _ ?_) (by simp)
      (.inl ⟨by simp, hi⟩)
    intro st
    rfl
  · obtain rfl := Option.some.inj ha
    refine h.aside i (fun _ => registered_changeSession _) (fun _ => isActive_changeSession _ ?_) (by simp)
      (.inl ⟨by simp, hi⟩)
    intro st
    split_ifs <;> rfl
  · split at ha
    · obtain rfl := Option.some.inj ha
      exact h
    · obtain rfl := Option.some.inj ha
      exact hclaim _ _ rfl rfl
  · split at ha
    · obtain rfl := Option.some.inj ha
      exact h
    · split_ifs at ha
      · obtain rfl := Option.some.inj ha
        exact h
      · obtain rfl := Option.some.inj ha
        exact hclaim _ _ rfl rfl
  · cases ha

theorem Guarded.step (h : s.Guarded) (hi : s.tasks.get? i = some k)
    (hc : clearsMark k a = true → s.othersProtected i k.session = false) (ha : s.step i k a = some t) : t.Guarded := by
  unfold State.step at ha
  split at ha
  · exact h.admits hi hc (admits_of_admission ha)
  · split_ifs at ha with hl
    obtain rfl := Option.some.inj ha
    exact h.lockBoth (by simpa [free] using hl)
  · split at ha
    · obtain rfl := Option.some.inj ha
      split_ifs
      · exact h.aside i (fun _ => rfl) (fun _ => rfl) rfl (.inr (.inl rfl))
      · exact h.aside i (fun _ => rfl) (fun _ => rfl) rfl (.inr (.inr ⟨_, rfl, trivial⟩))
    · cases ha
  · split_ifs at ha with hl
    obtain rfl := Option.some.inj ha
    exact h.lockBoth (by simpa [free] using hl.2)
  · split at ha
    · cases ha
    · obtain rfl := Option.some.inj ha
      exact h.settle hi _
  · obtain rfl := Option.some.inj ha
    exact ⟨h.registered, h.pending, h.alone, h.settling, h.marked, h.admitted⟩
  · obtain rfl := Option.some.inj ha
    refine h.aside i (fun _ => registered_changeSession _) (fun _ => isActive_changeSession _ ?_) (by simp)
      (.inr (.inl (by simp)))
    intro st
    rfl
  · obtain rfl := Option.some.inj ha
    refine h.aside i (fun _ => registered_changeSession _) (fun _ => isActive_changeSession _ ?_) (by simp)
      (.inr (.inl (by simp)))
    intro st
    rfl
  · cases ha

theorem Guarded.next {conf : Conf} {l : Thread × Action} (h : s.Guarded) (hl : cond s l = true)
    (ha : State.next conf s l = some (t, ())) : t.Guarded := by
  obtain ⟨i, a⟩ := l
  unfold State.next at ha
  obtain ⟨u, hu, heq⟩ := Option.map_eq_some_iff.1 ha
  obtain ⟨rfl, -⟩ := Prod.mk.inj heq
  split at hu
  · exact h.start ‹_› hu
  · rename_i k hk
    refine h.step hk (fun hclear => ?_) hu
    simpa [cond, hk, hclear] using hl

theorem guarded_of_start (h : Start s) : s.Guarded := by
  obtain ⟨sessions, resident, rfl, -⟩ := h
  refine ⟨?_, ?_, ?_, ?_, ?_, ?_⟩
  · intro i x e stage hi
    cases hi
  · intro i x e stage hi
    cases hi
  · intro i j x e stage stage' hi
    cases hi
  · intro i x b hi
    cases hi
  · intro i x e stage hi
    cases hi
  · intro x e he
    cases he

/-- No run makes a session busy and claimed at once; and as long as no failed admission takes the mark away from
another execution, a session with an admitted execution is busy and nobody's victim. -/
theorem checkpoint_spares_active (conf : Conf) :
    (∀ s, Reachable (system conf) s → ∀ x st, s.sessions.get? x = some st →
      ¬(st.toolActive = true ∧ st.evictionInProgress = true)) ∧
    ∀ s, Reachable ((system conf).restrict fun s l => cond s l.1) s → ∀ x e, s.isAdmitted x e →
      s.isActive x = true ∧ s.evicting x = false ∧ (∀ i k, s.tasks.get? i = some k → k.claims = true → k.session ≠ x) ∧
        ∀ resident exclude, selectVictim conf { sessions := s.sessions } resident exclude ≠ some x := by
  constructor
  · intro s h x st hst
    rintro ⟨ha, he⟩
    have := (Reachable.apart h).flags x (by simp [isActive, hst, ha])
    simp [evicting, hst, he] at this
  · intro s h x e hx
    have hg : s.Guarded := h.invariant (fun _ => guarded_of_start) fun _ _ _ hs ha => hs.next ha.2 ha.1
    have hapart := Reachable.apart h.of_restrict
    have hactive := hg.admitted x e hx
    have hevicting := hapart.flags x hactive
    refine ⟨hactive, hevicting, ?_, ?_⟩
    · rintro i k hi hk rfl
      rw [hapart.claimed i k hi hk] at hevicting
      cases hevicting
    · intro resident exclude hv
      obtain ⟨st, hst, hidle, -⟩ := selectVictim_idle hv
      simp [isActive, hst, hidle] at hactive

def exampleConf : Conf := ⟨0, 0, 0, 0, 0, 0, false, false, false, false, false, false, false, by decide⟩

def exampleStart : State := { sessions := (∅ : PyDict Session SessionState).set 0 {} }

theorem exampleStart_start : Start exampleStart := by
  refine ⟨_, _, rfl, fun x st hst => ?_⟩
  have hmem : (x, st) ∈ [((0, {}) : Session × SessionState)] := PyDict.mem_of_get? hst
  simp only [List.mem_singleton, Prod.mk.injEq] at hmem
  rw [hmem.2]
  exact ⟨rfl, rfl⟩

def admitted (i : Thread) (e : ExecutionId) : List (Thread × Action) :=
  [(i, .admitTool 0 e), (i, .enter), (i, .plan false true false), (i, .mark 1), (i, .release), (i, .acquired 2 true),
    (i, .reenter), (i, .publish false)]

theorem spared_beside_refusal :
    ∃ s, Reachable ((system exampleConf).restrict fun s l => cond s l.1) s ∧ s.isAdmitted 0 7 ∧
    s.isActive 0 = true := by
  have hrun := run_guarded Start (next exampleConf) cond exampleStart
    (admitted 1 7 ++ [(2, .admitTool 0 8), (2, .gateFails), (3, .claimVictim none)])
  have hr : Reachable ((system exampleConf).restrict fun s l => cond s l.1) _ := ⟨_, _, exampleStart_start, hrun⟩
  have hx : isAdmitted (trace (guarded cond (next exampleConf)) exampleStart
      (admitted 1 7 ++ [(2, .admitTool 0 8), (2, .gateFails), (3, .claimVictim none)])).1 0 7 := by
    unfold isAdmitted
    decide +kernel
  exact ⟨_, hr, hx, ((checkpoint_spares_active exampleConf).2 _ hr 0 7 hx).1⟩

theorem running_execution_evicted :
    ∃ s, Reachable (system exampleConf) s ∧ s.isAdmitted 0 7 ∧ s.isActive 0 = false ∧
    s.tasks.get? 3 = some (.eviction 0) := by
  have hr := (Reachable.start (T := system exampleConf) exampleStart_start).trace
    (admitted 1 7 ++ [(2, .admitTool 0 8), (2, .enter), (2, .plan false true false), (2, .mark 3), (2, .release),
      (2, .acquired 4 false), (2, .clear 5), (3, .claimVictim none)])
  refine ⟨_, hr, ?_, by decide +kernel, by decide +kernel⟩
  unfold isAdmitted
  decide +kernel

end State

end ClawBox.Activity
