import ClawBox.Numa.Borrow

namespace ClawBox.Numa

open Transition ClawBox.Snapshot

variable {τ : Type}

structure View where
  phase : Phase
  entry : Option BorrowedAllocation
  reservation : Option ℤ
  unobserved : Bool

def Borrower.view (s : Borrower τ) (v : Sandbox) : View :=
  ⟨s.phase v, s.borrowed.get? v, s.pool.borrowReservations.get? v, (s.pool.unobservedBorrows.get? v).isSome⟩

def Phase.rebindingTo : Phase → Option ℤ
  | .rebinding true capacity _ | .rollingBack capacity _ | .verifying true capacity _ | .settlingBorrow capacity =>
    some capacity
  | _ => none

def Phase.Plain : Phase → Bool
  | .measuring .. | .reserving .. | .recording .. | .rebinding true _ _ | .rollingBack .. | .verifying true _ _
  | .settlingBorrow _ | .settlingReturn true | .dropping _ => false
  | _ => true

def Phase.leaf : Phase → Option Leaf
  | .observing _ _ leaf | .deciding _ leaf _ | .measuring _ leaf | .reserving _ leaf _ | .recording _ leaf _
  | .rebinding _ _ leaf | .rollingBack _ leaf | .verifying _ _ leaf | .pinChecking leaf _ | .pinMeasuring leaf =>
    some leaf
  | _ => none

def Phase.Clears (x : Phase) (v : Sandbox) : Action τ → Prop
  | .leafShared u leaf shared => u = v ∧ x.leaf = some leaf ∧ shared = some 0
  | .rollback u leaf mems shared => u = v ∧ x.leaf = some leaf ∧ mems = some .localNode ∧ shared = some 0
  | .inspect u leaf found => u = v ∧ ∃ entry, x = .inspecting entry ∧ entry.leaf = leaf ∧
      (found = .leafPresent false 0 ∨ ∃ shared, found = .leafGone shared ∧ shared ≤ entry.parentSharedBytesBefore)
  | _ => False

structure Carried (v : Sandbox) (a : Action τ) (x y : Phase) (e : Option BorrowedAllocation) : Prop where
  leaf : ∀ l, y.leaf = some l → x.leaf = some l ∨ a = .locate v (some l)
  cleared : ∀ c, y = .releasing c → x.Clears v a
  inspected : ∀ entry, y = .inspecting entry → e = some entry

theorem Carried.idle {v : Sandbox} {a : Action τ} {x : Phase} {e : Option BorrowedAllocation} : Carried v a x .idle e :=
  ⟨by simp [Phase.leaf], by simp, by simp⟩

inductive LocalStep (v : Sandbox) (a : Action τ) (o : Event) : View → View → Prop
  | plain {x y : Phase} {e e' : Option BorrowedAllocation} {r : Option ℤ} {u : Bool} (hx : x.Plain) (hy : y.Plain)
      (he : e'.map (fun b => (b.capacityBytes, b.parentSharedBytesBefore)) =
        e.map (fun b => (b.capacityBytes, b.parentSharedBytesBefore)))
      (hc : Carried v a x y e') : LocalStep v a o ⟨x, e, r, u⟩ ⟨y, e', r, u⟩
  | measure {r : Option ℤ} {u : Bool} (capacity : ℤ) (leaf : Leaf) (before : Mems) :
      LocalStep v a o ⟨.deciding capacity leaf before, none, r, u⟩ ⟨.measuring capacity leaf, none, r, u⟩
  | measured {e : Option BorrowedAllocation} {r : Option ℤ} {u : Bool} (capacity : ℤ) (leaf : Leaf) (parentShared : ℤ)
      (ha : a = .parentShared v (some parentShared)) :
      LocalStep v a o ⟨.measuring capacity leaf, e, r, u⟩ ⟨.reserving capacity leaf parentShared, e, r, u⟩
  | unmeasured {e : Option BorrowedAllocation} {r : Option ℤ} {u : Bool} (capacity : ℤ) (leaf : Leaf) :
      LocalStep v a o ⟨.measuring capacity leaf, e, r, u⟩ ⟨.idle, e, r, u⟩
  | refused {e : Option BorrowedAllocation} {r : Option ℤ} {u : Bool} (capacity : ℤ) (leaf : Leaf) (parentShared : ℤ) :
      LocalStep v a o ⟨.reserving capacity leaf parentShared, e, r, u⟩ ⟨.idle, e, r, u⟩
  | reserve {e : Option BorrowedAllocation} {u : Bool} (capacity : ℤ) (leaf : Leaf) (parentShared : ℤ)
      (hpos : 0 < capacity) (ha : a = .reserve v) (ho : o = .running) :
      LocalStep v a o ⟨.reserving capacity leaf parentShared, e, none, u⟩
        ⟨.recording capacity leaf parentShared, e, some capacity, true⟩
  | record {e : Option BorrowedAllocation} {r : Option ℤ} {u : Bool} (capacity : ℤ) (leaf : Leaf) (parentShared : ℤ) :
      LocalStep v a o ⟨.recording capacity leaf parentShared, e, r, u⟩
        ⟨.rebinding true capacity leaf, some ⟨leaf, capacity, parentShared⟩, r, u⟩
  | reuse {r : Option ℤ} {u : Bool} (entry : BorrowedAllocation) (ha : a = .decide v) :
      LocalStep v a o ⟨.deciding entry.capacityBytes entry.leaf .localNode, some entry, r, u⟩
        ⟨.rebinding true entry.capacityBytes entry.leaf, some entry, r, u⟩
  | progress {x y : Phase} {e : Option BorrowedAllocation} {r : Option ℤ} {u : Bool} (capacity : ℤ)
      (hx : x.rebindingTo = some capacity) (hy : y.rebindingTo = some capacity) (hc : Carried v a x y e) :
      LocalStep v a o ⟨x, e, r, u⟩ ⟨y, e, r, u⟩
  | halt {x y : Phase} {e : Option BorrowedAllocation} {r : Option ℤ} {u : Bool} (capacity : ℤ)
      (hx : x.rebindingTo = some capacity) (hy : y.Plain) (hc : Carried v a x y e) :
      LocalStep v a o ⟨x, e, r, u⟩ ⟨y, e, r, u⟩
  | settle {e : Option BorrowedAllocation} {r : Option ℤ} {u : Bool} (capacity : ℤ) :
      LocalStep v a o ⟨.settlingBorrow capacity, e, r, u⟩ ⟨.idle, e, r, false⟩
  | release {y : Phase} {e : Option BorrowedAllocation} {b : ℤ} {u : Bool} (cause : Cause)
      (hy : y = .settlingReturn true ∨ y = .dropping cause) :
      LocalStep v a o ⟨.releasing cause, e, some b, u⟩ ⟨y, e, none, false⟩
  | returned {e : Option BorrowedAllocation} {r : Option ℤ} {u : Bool} :
      LocalStep v a o ⟨.settlingReturn true, e, r, u⟩ ⟨.dropping .returnLocal, e, r, u⟩
  | lost {e : Option BorrowedAllocation} {r : Option ℤ} {u : Bool} (shared : Option ℤ) (ha : a = .parentShared v shared)
      (hs : ∀ n, shared = some n → n < 0) : LocalStep v a o ⟨.settlingReturn true, e, r, u⟩ ⟨.idle, e, r, u⟩
  | drop {e : Option BorrowedAllocation} {r : Option ℤ} {u : Bool} (cause : Cause) :
      LocalStep v a o ⟨.dropping cause, e, r, u⟩ ⟨.idle, none, r, u⟩

def borrows (p : Pool τ) : PyDict Sandbox ℤ × PySet Sandbox := (p.borrowReservations, p.unobservedBorrows)

open Raising in
theorem assertCapacity_frames : Frames (borrows (τ := τ)) Pool.assertCapacity := by
  apply Frames.get_bind
  intro p
  apply Frames.ite
  · exact Frames.raise _
  · exact Frames.pure _

open Raising in
theorem lookup_frames (key : SnapshotKey) : Frames (borrows (τ := τ)) (Pool.lookup key) := by
  apply Frames.get_bind
  intro p
  split
  · exact Frames.raise _
  · exact Frames.pure _

open Raising in
theorem reserve_frames (key : SnapshotKey) (upperBound : ℤ) :
    Frames (borrows (τ := τ)) (Pool.reserve key upperBound) := by
  apply Frames.ite (Frames.raise_bind _ _)
  apply Frames.get_bind
  intro p
  apply Frames.ite (Frames.raise_bind _ _)
  apply Frames.ite (Frames.raise_bind _ _)
  apply Frames.ite (Frames.raise_bind _ _)
  exact Frames.modify_bind (fun _ => rfl) assertCapacity_frames

open Raising in
theorem commit_frames (a : Pool.CommitArgs τ) : Frames borrows (Pool.commit a) := by
  apply Frames.ite (Frames.raise_bind _ _)
  apply Frames.get_bind
  intro p
  split
  · exact Frames.raise _
  apply Frames.get_bind
  intro q
  split
  · exact Frames.raise _
  refine Frames.modify_bind (fun _ => rfl) ?_
  apply Frames.ite
  · exact Frames.modify_bind (fun _ => rfl) (Frames.raise_bind _ _)
  refine Frames.modify_bind (fun _ => rfl) ?_
  cases a.replaces with
  | none =>
    cases a.spiller with
    | none => exact assertCapacity_frames
    | some f => exact Frames.modify_bind (fun _ => rfl) assertCapacity_frames
  | some k =>
    cases a.spiller with
    | none => exact Frames.modify_bind (fun _ => rfl) assertCapacity_frames
    | some f => exact Frames.modify_bind (fun _ => rfl) (Frames.modify_bind (fun _ => rfl) assertCapacity_frames)

open Raising in
theorem foreign_frames (op : PoolOp τ) (h : Foreign op) : Frames borrows op.body := by
  cases op with
  | reserveBorrow sandbox upperBound => cases h
  | releaseBorrow sandbox => cases h
  | observeSharedLive sharedLive settleBorrow =>
    cases settleBorrow with
    | some sandbox => cases h
    | none =>
      refine Frames.bind (x := Pool.observeSharedLive sharedLive none) ?_ fun _ => Frames.pure _
      apply Frames.ite (Frames.raise_bind _ _)
      exact Frames.modify_bind (fun _ => rfl) (Frames.get_bind fun _ => Frames.pure _)
  | reserve key upperBound => exact reserve_frames key upperBound
  | commit args => exact commit_frames args
  | abort key => exact Frames.modify fun _ => rfl
  | pin key => exact Frames.bind (lookup_frames key) fun _ => Frames.modify fun _ => rfl
  | unpin key =>
    apply Frames.bind (lookup_frames key)
    intro m
    exact Frames.ite (Frames.raise_bind _ _) (Frames.modify fun _ => rfl)
  | touch key now => exact Frames.bind (lookup_frames key) fun _ => Frames.modify fun _ => rfl
  | retainForVm key => exact Frames.bind (lookup_frames key) fun _ => Frames.modify fun _ => rfl
  | remove key consumePinned =>
    apply Frames.bind (lookup_frames key)
    intro m
    exact Frames.ite (Frames.raise_bind _ _) (Frames.modify fun _ => rfl)

open Raising in
theorem retireVictim_frames (item : Victim) : Frames (borrows (τ := τ)) (Pool.retireVictim item) := by
  apply Frames.get_bind
  intro p
  split
  · exact Frames.raise _
  · apply Frames.ite (Frames.raise_bind _ _)
    exact Frames.modify_bind (fun _ => rfl) assertCapacity_frames

namespace Action

def vm : Action τ → Option Sandbox
  | .pool _ | .spill _ => none
  | .borrow v _ | .returnLocal v | .pinLocal v | .releaseDestroyed v | .locate v _ | .observe v _ | .decide v
  | .parentShared v _ | .reserve v | .record v | .rebind v _ | .rollback v _ _ _ | .leafShared v _ _ | .release v
  | .drop v | .pinCheck v _ | .inspect v _ _ => some v

end Action

namespace Borrower

structure Stepped (s : Borrower τ) (v : Sandbox) (a : Action τ) (o : Event) (t : Borrower τ) : Prop where
  others : ∀ u, u ≠ v → t.view u = s.view u
  own : LocalStep v a o (s.view v) (t.view v)

theorem view_setPhase_ne (s : Borrower τ) {u v : Sandbox} (x : Phase) (h : u ≠ v) :
    (s.setPhase v x).view u = s.view u := by
  simp [view, setPhase, h]

theorem view_setPhase (s : Borrower τ) (v : Sandbox) (x : Phase) :
    (s.setPhase v x).view v = { s.view v with phase := x } := by
  simp [view, setPhase]

theorem view_finish_ne (s : Borrower τ) {u v : Sandbox} (h : u ≠ v) : (s.finish v).view u = s.view u :=
  view_setPhase_ne s .idle h

theorem view_finish (s : Borrower τ) (v : Sandbox) : (s.finish v).view v = { s.view v with phase := .idle } :=
  view_setPhase s v .idle

theorem Stepped.phase {s t : Borrower τ} {v : Sandbox} {a : Action τ} {e : Event} (y : Phase)
    (hne : ∀ u, u ≠ v → t.view u = s.view u) (hv : t.view v = { s.view v with phase := y })
    (h : LocalStep v a e (s.view v) { s.view v with phase := y }) : Stepped s v a e t :=
  ⟨hne, by rw [hv]; exact h⟩

theorem Stepped.of_lock {s t : Borrower τ} {v : Sandbox} {a : Action τ} {e : Event} {lock : Option Sandbox}
    (h : Stepped { s with rebindLock := lock } v a e t) : Stepped s v a e t :=
  ⟨h.others, h.own⟩

theorem Stepped.goto {s t : Borrower τ} {v : Sandbox} {a : Action τ} {x : Phase} {e : Event}
    (hs : s.goto v x = some (t, e)) (h : LocalStep v a e (s.view v) { s.view v with phase := x }) :
    Stepped s v a e t := by
  obtain ⟨rfl, _⟩ := Prod.mk.inj (Option.some.inj hs)
  exact .phase x (fun u hu => view_setPhase_ne s x hu) (view_setPhase s v x) h

theorem Stepped.raised {s t : Borrower τ} {v : Sandbox} {a : Action τ} {e : Event}
    (hs : s.raised v = some (t, e)) (h : LocalStep v a e (s.view v) { s.view v with phase := .idle }) :
    Stepped s v a e t := by
  obtain ⟨rfl, _⟩ := Prod.mk.inj (Option.some.inj hs)
  exact .phase .idle (fun u hu => view_finish_ne s hu) (view_finish s v) h

theorem Stepped.finish {s t : Borrower τ} {v : Sandbox} {a : Action τ} {e e' : Event}
    (hs : some (s.finish v, e') = some (t, e)) (h : LocalStep v a e (s.view v) { s.view v with phase := .idle }) :
    Stepped s v a e t := by
  obtain ⟨rfl, _⟩ := Prod.mk.inj (Option.some.inj hs)
  exact .phase .idle (fun u hu => view_finish_ne s hu) (view_finish s v) h

theorem plain_step {s : Borrower τ} {v : Sandbox} {a : Action τ} {e : Event} (hx : (s.phase v).Plain) {y : Phase}
    (hy : y.Plain) (hc : Carried v a (s.phase v) y (s.borrowed.get? v)) :
    LocalStep v a e (s.view v) { s.view v with phase := y } :=
  .plain hx hy rfl hc

theorem progress_step {s : Borrower τ} {v : Sandbox} {a : Action τ} {e : Event} {capacity : ℤ}
    (hx : (s.phase v).rebindingTo = some capacity) {y : Phase} (hy : y.rebindingTo = some capacity)
    (hc : Carried v a (s.phase v) y (s.borrowed.get? v)) :
    LocalStep v a e (s.view v) { s.view v with phase := y } :=
  .progress capacity hx hy hc

theorem halt_step {s : Borrower τ} {v : Sandbox} {a : Action τ} {e : Event} {capacity : ℤ}
    (hx : (s.phase v).rebindingTo = some capacity) {y : Phase} (hy : y.Plain)
    (hc : Carried v a (s.phase v) y (s.borrowed.get? v)) :
    LocalStep v a e (s.view v) { s.view v with phase := y } :=
  .halt capacity hx hy hc

theorem carried_goto {v : Sandbox} {a : Action τ} {x y : Phase} {e : Option BorrowedAllocation}
    (hl : y.leaf = none ∨ y.leaf = x.leaf) (hr : ∀ c, y ≠ .releasing c) (hi : ∀ b, y ≠ .inspecting b) :
    Carried v a x y e := by
  refine ⟨?_, fun c h => absurd h (hr c), fun b h => absurd h (hi b)⟩
  intro l h
  rcases hl with hl | hl
  · rw [hl] at h
    cases h
  · exact .inl (hl ▸ h)

theorem carried_release {v : Sandbox} {a : Action τ} {x : Phase} {e : Option BorrowedAllocation} {cause : Cause}
    (hc : x.Clears v a) : Carried v a x (.releasing cause) e :=
  ⟨by simp [Phase.leaf], fun _ _ => hc, by simp⟩

theorem borrow_stepped {s t : Borrower τ} {v : Sandbox} {a : Action τ} {e : Event} {capacity : ℤ}
    (hx : s.phase v = .idle) (h : s.borrow v capacity = some (t, e)) : Stepped s v a e t := by
  have hp : (s.phase v).Plain := by rw [hx]; rfl
  unfold borrow at h
  split_ifs at h
  · exact .raised h (plain_step hp rfl .idle)
  · exact .of_lock (.goto h (plain_step hp rfl (carried_goto (.inl rfl) (by simp) (by simp))))

theorem returnLocal_stepped {s t : Borrower τ} {v : Sandbox} {a : Action τ} {e : Event} (hx : s.phase v = .idle)
    (h : s.returnLocal v = some (t, e)) : Stepped s v a e t := by
  have hp : (s.phase v).Plain := by rw [hx]; rfl
  unfold returnLocal at h
  split at h
  · exact .raised h (plain_step hp rfl .idle)
  · split_ifs at h
    · exact .raised h (plain_step hp rfl .idle)
    · exact .of_lock (.goto h (plain_step hp rfl (carried_goto (.inl rfl) (by simp) (by simp))))

theorem releaseDestroyed_stepped {s t : Borrower τ} {v : Sandbox} {a : Action τ} {e : Event} (hx : s.phase v = .idle)
    (h : s.releaseDestroyed v = some (t, e)) : Stepped s v a e t := by
  have hp : (s.phase v).Plain := by rw [hx]; rfl
  unfold releaseDestroyed at h
  split at h
  · exact .finish h (plain_step hp rfl .idle)
  · rename_i entry he
    refine .goto h (plain_step hp rfl ⟨by simp [Phase.leaf], by simp, ?_⟩)
    rintro _ ⟨⟩
    exact he

theorem carried_located {v : Sandbox} {a : Action τ} {x y : Phase} {e : Option BorrowedAllocation} {leaf : Leaf}
    (ha : a = .locate v (some leaf)) (hy : y.leaf = some leaf) (hr : ∀ c, y ≠ .releasing c)
    (hi : ∀ b, y ≠ .inspecting b) :
    Carried v a x y e := by
  refine ⟨?_, fun c h => absurd h (hr c), fun b h => absurd h (hi b)⟩
  intro l h
  obtain rfl := Option.some.inj (hy.symm.trans h)
  exact .inr ha

theorem relocate_stepped {s t : Borrower τ} {v : Sandbox} {e : Event} {leaf : Leaf}
    (hx : s.phase v = .pinLocating) (h : s.relocate v leaf = some (t, e)) :
    Stepped s v (.locate v (some leaf)) e t := by
  have hp : (s.phase v).Plain := by rw [hx]; rfl
  unfold relocate at h
  split at h
  · exact .goto h (plain_step hp rfl (carried_located rfl rfl (by simp) (by simp)))
  · rename_i entry he
    split_ifs at h
    · obtain ⟨rfl, _⟩ := Prod.mk.inj (Option.some.inj h)
      constructor
      · intro u hu
        rw [view_setPhase_ne _ _ hu]
        simp [view, PyDict.get?_set_ne _ _ hu]
      · rw [view_setPhase]
        refine .plain hp rfl ?_ (carried_located rfl rfl (by simp) (by simp))
        simp [view, he]
    · exact .goto h (plain_step hp rfl (carried_located rfl rfl (by simp) (by simp)))

theorem decide_stepped {s t : Borrower τ} {v : Sandbox} {e : Event} {capacity : ℤ} {leaf : Leaf} {before : Mems}
    (hx : s.phase v = .deciding capacity leaf before) (h : s.decide v capacity leaf before = some (t, e)) :
    Stepped s v (.decide v) e t := by
  have hp : (s.phase v).Plain := by rw [hx]; rfl
  unfold decide at h
  split at h
  · rename_i he
    apply Stepped.goto h
    have hv : s.view v = ⟨s.phase v, none, s.pool.borrowReservations.get? v,
        (s.pool.unobservedBorrows.get? v).isSome⟩ := by
      simp [view, he]
    rw [hv, hx]
    exact .measure capacity leaf before
  · rename_i entry he
    split_ifs at h with hbad
    · exact .raised h (plain_step hp rfl .idle)
    · push Not at hbad
      obtain ⟨rfl, rfl, rfl⟩ := hbad
      apply Stepped.goto h
      have hv : s.view v = ⟨.deciding entry.capacityBytes entry.leaf .localNode, some entry,
          s.pool.borrowReservations.get? v, (s.pool.unobservedBorrows.get? v).isSome⟩ := by
        simp [view, he, hx]
      rw [hv]
      exact .reuse entry rfl

theorem reserve_stepped {s t : Borrower τ} {v : Sandbox} {e : Event} {capacity parentShared : ℤ} {leaf : Leaf}
    (hx : s.phase v = .reserving capacity leaf parentShared)
    (h : s.reserve v capacity leaf parentShared = some (t, e)) :
    Stepped s v (.reserve v) e t := by
  unfold reserve at h
  rcases Pool.reserveBorrow_cases s.pool v capacity with ⟨e', _, hr⟩ | ⟨q, rfl, hr, hpos, hnew, _, _⟩
  · rw [hr] at h
    apply Stepped.raised (s := s) h
    have hv : s.view v = ⟨.reserving capacity leaf parentShared, s.borrowed.get? v, s.pool.borrowReservations.get? v,
        (s.pool.unobservedBorrows.get? v).isSome⟩ := by
      simp [view, hx]
    rw [hv]
    exact .refused capacity leaf parentShared
  · rw [hr] at h
    obtain ⟨rfl, rfl⟩ := Prod.mk.inj (Option.some.inj h)
    constructor
    · intro u hu
      rw [view_setPhase_ne _ _ hu]
      simp [view, PySet.add, PyDict.get?_set_ne _ _ hu]
    · rw [view_setPhase]
      have hv : s.view v = ⟨.reserving capacity leaf parentShared, s.borrowed.get? v, none,
          (s.pool.unobservedBorrows.get? v).isSome⟩ := by
        simp [view, hx, hnew]
      rw [hv]
      simp only [view, PySet.add, PyDict.get?_set_self, Option.isSome_some]
      exact .reserve capacity leaf parentShared hpos rfl rfl

theorem rebind_stepped {s t : Borrower τ} {v : Sandbox} {a : Action τ} {e : Event} {reserve : Bool} {capacity : ℤ}
    {leaf : Leaf} (hx : s.phase v = .rebinding reserve capacity leaf) (result : RebindResult)
    (h : s.rebind v reserve capacity leaf result = some (t, e)) : Stepped s v a e t := by
  cases reserve with
  | false =>
    have hp : (s.phase v).Plain := by rw [hx]; rfl
    cases result with
    | done => exact .goto h (plain_step hp rfl (carried_goto (.inr (by rw [hx]; rfl)) (by simp) (by simp)))
    | failed rollbackSafe =>
      simp only [rebind, Bool.false_eq_true, false_and, if_false] at h
      exact .raised h (plain_step hp rfl .idle)
  | true =>
    have hp : (s.phase v).rebindingTo = some capacity := by rw [hx]; rfl
    cases result with
    | done => exact .goto h (progress_step hp rfl (carried_goto (.inr (by rw [hx]; rfl)) (by simp) (by simp)))
    | failed rollbackSafe =>
      simp only [rebind] at h
      split_ifs at h
      · exact .goto h (progress_step hp rfl (carried_goto (.inr (by rw [hx]; rfl)) (by simp) (by simp)))
      · exact .raised h (halt_step hp rfl .idle)

theorem verify_stepped {s t : Borrower τ} {v : Sandbox} {e : Event} {reserve : Bool} {capacity : ℤ}
    {leaf : Leaf} (hx : s.phase v = .verifying reserve capacity leaf) (shared : Option ℤ)
    (h : s.verify v reserve capacity shared = some (t, e)) : Stepped s v (.leafShared v leaf shared) e t := by
  cases reserve with
  | false =>
    have hp : (s.phase v).Plain := by rw [hx]; rfl
    cases shared with
    | none => exact .raised h (plain_step hp rfl .idle)
    | some shared =>
      simp only [verify, Bool.false_eq_true, if_false] at h
      split_ifs at h with hzero
      · refine .goto h (plain_step hp rfl (carried_release ⟨rfl, ?_, by rw [hzero]⟩))
        rw [hx]
        rfl
      · exact .goto h (plain_step hp rfl (carried_goto (.inl rfl) (by simp) (by simp)))
  | true =>
    have hp : (s.phase v).rebindingTo = some capacity := by rw [hx]; rfl
    cases shared with
    | none => exact .raised h (halt_step hp rfl .idle)
    | some shared => exact .goto h (progress_step hp rfl (carried_goto (.inl rfl) (by simp) (by simp)))

theorem unborrow_stepped {s t : Borrower τ} {v : Sandbox} {e : Event} {leaf : Leaf}
    (hx : s.phase v = .pinMeasuring leaf) (shared : Option ℤ) (h : s.unborrow v shared = some (t, e)) :
    Stepped s v (.leafShared v leaf shared) e t := by
  have hp : (s.phase v).Plain := by rw [hx]; rfl
  cases shared with
  | none => exact .raised h (plain_step hp rfl .idle)
  | some shared =>
    simp only [unborrow] at h
    split_ifs at h with hzero
    · refine .goto h (plain_step hp rfl (carried_release ⟨rfl, ?_, by rw [hzero]⟩))
      rw [hx]
      rfl
    · exact .finish h (plain_step hp rfl .idle)

theorem view_observed_ne (s : Borrower τ) {u v : Sandbox} (shared : ℤ) (h : u ≠ v) :
    ({ s with pool := s.pool.observed shared (some v) } : Borrower τ).view u = s.view u := by
  simp [view, Pool.observed, PySet.discard, PyDict.get?_pop_ne _ h]

theorem settleBorrow_stepped {s t : Borrower τ} {v : Sandbox} {a : Action τ} {e : Event} {capacity : ℤ}
    (hx : s.phase v = .settlingBorrow capacity) (shared : Option ℤ)
    (h : s.settle v (some v) false shared = some (t, e)) :
    Stepped s v a e t := by
  have hp : (s.phase v).rebindingTo = some capacity := by rw [hx]; rfl
  cases shared with
  | none => exact .raised h (halt_step hp rfl .idle)
  | some shared =>
    simp only [settle] at h
    rcases lt_or_ge shared 0 with hneg | hpos
    · rw [Pool.observeSharedLive_negative hneg] at h
      exact .raised (s := s) h (halt_step hp rfl .idle)
    · rw [Pool.observeSharedLive_run hpos] at h
      obtain ⟨rfl, _⟩ := Prod.mk.inj (Option.some.inj h)
      constructor
      · intro u hu
        rw [view_finish_ne _ hu, view_observed_ne s shared hu]
      · rw [view_finish]
        have hv : s.view v = ⟨.settlingBorrow capacity, s.borrowed.get? v, s.pool.borrowReservations.get? v,
            (s.pool.unobservedBorrows.get? v).isSome⟩ := by
          simp [view, hx]
        rw [hv]
        simp only [view, Pool.observed, PySet.discard, PyDict.get?_pop_self, Option.isSome_none]
        exact .settle capacity

theorem settleReturn_stepped {s t : Borrower τ} {v : Sandbox} {e : Event} {released : Bool}
    (hx : s.phase v = .settlingReturn released) (shared : Option ℤ)
    (h : s.settle v none released shared = some (t, e)) :
    Stepped s v (.parentShared v shared) e t := by
  have hv : s.view v = ⟨.settlingReturn released, s.borrowed.get? v, s.pool.borrowReservations.get? v,
      (s.pool.unobservedBorrows.get? v).isSome⟩ := by
    simp [view, hx]
  have hlost : ∀ shared : Option ℤ, (∀ n, shared = some n → n < 0) →
      LocalStep v (Action.parentShared (τ := τ) v shared) e (s.view v) { s.view v with phase := .idle } := by
    intro shared hs
    rw [hv]
    cases released with
    | false => exact .plain rfl rfl rfl .idle
    | true => exact .lost shared rfl hs
  cases shared with
  | none => exact .raised h (hlost none (by simp))
  | some shared =>
    simp only [settle] at h
    rcases lt_or_ge shared 0 with hneg | hpos
    · rw [Pool.observeSharedLive_negative hneg] at h
      exact .raised (s := s) h (hlost (some shared) (by simpa using hneg))
    · rw [Pool.observeSharedLive_run hpos] at h
      have hsame : ∀ u, ({ s with pool := s.pool.observed shared none } : Borrower τ).view u = s.view u := fun _ => rfl
      cases released with
      | false =>
        obtain ⟨rfl, _⟩ := Prod.mk.inj (Option.some.inj h)
        refine .phase .idle ?_ (by rw [view_finish, hsame]) (by rw [hv]; exact .plain rfl rfl rfl .idle)
        intro u hu
        rw [view_finish_ne _ hu, hsame]
      | true =>
        obtain ⟨rfl, _⟩ := Prod.mk.inj (Option.some.inj h)
        refine .phase (.dropping .returnLocal) ?_ (by rw [view_setPhase, hsame]) (by rw [hv]; exact .returned)
        intro u hu
        rw [view_setPhase_ne _ _ hu, hsame]

theorem release_stepped {s t : Borrower τ} {v : Sandbox} {a : Action τ} {e : Event} {cause : Cause}
    (hx : s.phase v = .releasing cause) (h : s.release v cause = some (t, e)) : Stepped s v a e t := by
  have hp : (s.phase v).Plain := by rw [hx]; rfl
  unfold release at h
  cases hb : s.pool.borrowReservations.get? v with
  | none =>
    have hr : (Pool.releaseBorrow v).run s.pool = (.error (.unknownBorrow v), s.pool) := by
      simp [Pool.releaseBorrow, hb]
    rw [hr] at h
    exact .raised (s := s) h (plain_step hp rfl .idle)
  | some b =>
    rw [Pool.releaseBorrow_run hb] at h
    obtain ⟨rfl, _⟩ := Prod.mk.inj (Option.some.inj h)
    constructor
    · intro u hu
      rw [view_setPhase_ne _ _ hu]
      simp [view, PySet.discard, PyDict.get?_pop_ne _ hu]
    · rw [view_setPhase]
      have hv : s.view v = ⟨.releasing cause, s.borrowed.get? v, some b, (s.pool.unobservedBorrows.get? v).isSome⟩ := by
        simp [view, hx, hb]
      rw [hv]
      simp only [view, PySet.discard, PyDict.get?_pop_self, Option.isSome_none]
      apply LocalStep.release
      split_ifs
      · exact .inl rfl
      · exact .inr rfl

theorem drop_stepped {s t : Borrower τ} {v : Sandbox} {a : Action τ} {e : Event} {cause : Cause}
    (hx : s.phase v = .dropping cause) (h : s.drop v cause = some (t, e)) : Stepped s v a e t := by
  obtain ⟨rfl, _⟩ := Prod.mk.inj (Option.some.inj h)
  constructor
  · intro u hu
    rw [view_finish_ne _ hu]
    simp [view, PyDict.get?_pop_ne _ hu]
  · rw [view_finish]
    have hv : s.view v = ⟨.dropping cause, s.borrowed.get? v, s.pool.borrowReservations.get? v,
        (s.pool.unobservedBorrows.get? v).isSome⟩ := by
      simp [view, hx]
    rw [hv]
    simp only [view, PyDict.get?_pop_self]
    exact .drop cause

theorem record_stepped {s t : Borrower τ} {v : Sandbox} {a : Action τ} {e : Event} {capacity parentShared : ℤ}
    {leaf : Leaf} (hx : s.phase v = .recording capacity leaf parentShared)
    (h : ({ s with borrowed := s.borrowed.set v ⟨leaf, capacity, parentShared⟩ } : Borrower τ).goto v
      (.rebinding true capacity leaf) = some (t, e)) : Stepped s v a e t := by
  obtain ⟨rfl, _⟩ := Prod.mk.inj (Option.some.inj h)
  constructor
  · intro u hu
    rw [view_setPhase_ne _ _ hu]
    simp [view, PyDict.get?_set_ne _ _ hu]
  · rw [view_setPhase]
    have hv : s.view v = ⟨.recording capacity leaf parentShared, s.borrowed.get? v, s.pool.borrowReservations.get? v,
        (s.pool.unobservedBorrows.get? v).isSome⟩ := by
      simp [view, hx]
    rw [hv]
    simp only [view, PyDict.get?_set_self]
    exact .record capacity leaf parentShared

theorem inspect_stepped {s t : Borrower τ} {v : Sandbox} {e : Event} {entry : BorrowedAllocation}
    (hx : s.phase v = .inspecting entry) (found : Inspection) (h : s.inspect v entry found = some (t, e)) :
    Stepped s v (.inspect v entry.leaf found) e t := by
  have hp : (s.phase v).Plain := by rw [hx]; rfl
  cases found with
  | failed => exact .raised h (plain_step hp rfl .idle)
  | leafPresent populated shared =>
    simp only [inspect] at h
    split_ifs at h with hleft
    · exact .raised h (plain_step hp rfl .idle)
    · push Not at hleft
      obtain ⟨hpop, rfl⟩ := hleft
      obtain rfl : populated = false := Bool.eq_false_iff.mpr hpop
      exact .goto h (plain_step hp rfl (carried_release ⟨rfl, entry, hx, rfl, .inl rfl⟩))
  | leafGone parentShared =>
    simp only [inspect] at h
    split_ifs at h with hmore
    · exact .raised h (plain_step hp rfl .idle)
    · exact .goto h (plain_step hp rfl (carried_release ⟨rfl, entry, hx, rfl, .inr ⟨parentShared, rfl, by omega⟩⟩))

theorem view_pool {s : Borrower τ} {p : Pool τ} (h : borrows p = borrows s.pool) (u : Sandbox) :
    ({ s with pool := p } : Borrower τ).view u = s.view u := by
  obtain ⟨h1, h2⟩ := Prod.mk.inj h
  simp only [view, h1, h2]

theorem next_stepped {s t : Borrower τ} {a : Action τ} {e : Event} (h : next s a = some (t, e)) :
    (a.vm = none ∧ ∀ u, t.view u = s.view u) ∨ ∃ v, a.vm = some v ∧ Stepped s v a e t := by
  cases a with
  | pool op =>
    simp only [next] at h
    split_ifs at h with hop
    obtain ⟨rfl, _⟩ := Prod.mk.inj (Option.some.inj h)
    exact .inl ⟨rfl, view_pool (foreign_frames op hop s.pool)⟩
  | spill item =>
    obtain ⟨rfl, _⟩ := Prod.mk.inj (Option.some.inj h)
    exact .inl ⟨rfl, view_pool (retireVictim_frames item s.pool)⟩
  | borrow v capacity =>
    simp only [next] at h
    split_ifs at h with hx
    exact .inr ⟨v, rfl, borrow_stepped hx h⟩
  | returnLocal v =>
    simp only [next] at h
    split_ifs at h with hx
    exact .inr ⟨v, rfl, returnLocal_stepped hx h⟩
  | pinLocal v =>
    simp only [next] at h
    split_ifs at h with hx
    exact .inr ⟨v, rfl, .goto h (plain_step (by rw [hx]; rfl) rfl (carried_goto (.inl rfl) (by simp) (by simp)))⟩
  | releaseDestroyed v =>
    simp only [next] at h
    split_ifs at h with hx
    exact .inr ⟨v, rfl, releaseDestroyed_stepped hx h⟩
  | locate v leaf =>
    cases hx : s.phase v with
    | locating reserve capacity =>
      have hp : (s.phase v).Plain := by rw [hx]; rfl
      cases leaf with
      | none =>
        simp only [next, hx] at h
        exact .inr ⟨v, rfl, .raised h (plain_step hp rfl .idle)⟩
      | some leaf =>
        simp only [next, hx] at h
        exact .inr ⟨v, rfl, .goto h (plain_step hp rfl (carried_located rfl rfl (by simp) (by simp)))⟩
    | pinLocating =>
      cases leaf with
      | none =>
        simp only [next, hx] at h
        exact .inr ⟨v, rfl, .raised h (plain_step (by rw [hx]; rfl) rfl .idle)⟩
      | some leaf =>
        simp only [next, hx] at h
        exact .inr ⟨v, rfl, relocate_stepped hx h⟩
    | _ => simp [next, hx] at h
  | observe v before =>
    cases hx : s.phase v with
    | observing reserve capacity leaf =>
      have hp : (s.phase v).Plain := by rw [hx]; rfl
      cases before with
      | none =>
        simp only [next, hx] at h
        exact .inr ⟨v, rfl, .raised h (plain_step hp rfl .idle)⟩
      | some before =>
        cases reserve with
        | true =>
          simp only [next, hx] at h
          exact .inr ⟨v, rfl, .goto h (plain_step hp rfl (carried_goto (.inr (by rw [hx]; rfl)) (by simp) (by simp)))⟩
        | false =>
          simp only [next, hx] at h
          exact .inr ⟨v, rfl, .goto h (plain_step hp rfl (carried_goto (.inr (by rw [hx]; rfl)) (by simp) (by simp)))⟩
    | _ => simp [next, hx] at h
  | decide v =>
    simp only [next] at h
    split at h
    · rename_i hx
      exact .inr ⟨v, rfl, decide_stepped hx h⟩
    · cases h
  | parentShared v shared =>
    cases hx : s.phase v with
    | measuring capacity leaf =>
      cases shared with
      | none =>
        simp only [next, hx] at h
        refine .inr ⟨v, rfl, .raised h ?_⟩
        simp only [view, hx]
        exact .unmeasured capacity leaf
      | some shared =>
        simp only [next, hx] at h
        refine .inr ⟨v, rfl, .goto h ?_⟩
        simp only [view, hx]
        exact .measured capacity leaf shared rfl
    | settlingBorrow capacity =>
      simp only [next, hx] at h
      exact .inr ⟨v, rfl, settleBorrow_stepped hx shared h⟩
    | settlingReturn released =>
      simp only [next, hx] at h
      exact .inr ⟨v, rfl, settleReturn_stepped hx shared h⟩
    | _ => simp [next, hx] at h
  | reserve v =>
    simp only [next] at h
    split at h
    · rename_i hx
      exact .inr ⟨v, rfl, reserve_stepped hx h⟩
    · cases h
  | record v =>
    simp only [next] at h
    split at h
    · rename_i hx
      exact .inr ⟨v, rfl, record_stepped hx h⟩
    · cases h
  | rebind v result =>
    simp only [next] at h
    split at h
    · rename_i hx
      exact .inr ⟨v, rfl, rebind_stepped hx result h⟩
    · cases h
  | rollback v leaf mems shared =>
    simp only [next] at h
    split at h
    · rename_i capacity leaf' hx
      have hp : (s.phase v).rebindingTo = some capacity := by rw [hx]; rfl
      split_ifs at h with hleaf hclear
      · refine .inr ⟨v, rfl, .goto h (halt_step hp rfl (carried_release ⟨rfl, ?_, hclear⟩))⟩
        rw [hx, ← hleaf]
        rfl
      · exact .inr ⟨v, rfl, .raised h (halt_step hp rfl .idle)⟩
    · cases h
  | leafShared v leaf shared =>
    simp only [next] at h
    split at h
    · rename_i hx
      split_ifs at h with hleaf
      subst hleaf
      exact .inr ⟨v, rfl, verify_stepped hx shared h⟩
    · rename_i hx
      split_ifs at h with hleaf
      subst hleaf
      exact .inr ⟨v, rfl, unborrow_stepped hx shared h⟩
    · cases h
  | release v =>
    simp only [next] at h
    split at h
    · rename_i hx
      exact .inr ⟨v, rfl, release_stepped hx h⟩
    · cases h
  | drop v =>
    simp only [next] at h
    split at h
    · rename_i hx
      exact .inr ⟨v, rfl, drop_stepped hx h⟩
    · cases h
  | pinCheck v ok =>
    simp only [next] at h
    split at h
    · rename_i hx
      have hp : (s.phase v).Plain := by rw [hx]; rfl
      split_ifs at h
      · exact .inr ⟨v, rfl, .goto h (plain_step hp rfl (carried_goto (.inr (by rw [hx]; rfl)) (by simp) (by simp)))⟩
      · exact .inr ⟨v, rfl, .finish h (plain_step hp rfl .idle)⟩
      · exact .inr ⟨v, rfl, .raised h (plain_step hp rfl .idle)⟩
    · cases h
  | inspect v leaf found =>
    simp only [next] at h
    split at h
    · rename_i hx
      split_ifs at h with hleaf
      subst hleaf
      exact .inr ⟨v, rfl, inspect_stepped hx found h⟩
    · cases h

end Borrower

def Phase.Steady : Phase → Bool
  | .measuring .. | .reserving .. | .recording .. | .settlingReturn true | .dropping _ => false
  | _ => true

theorem Phase.steady_of_plain {x : Phase} (h : x.Plain) : x.Steady := by
  cases x with
  | settlingReturn released => cases released <;> simp_all [Plain, Steady]
  | _ => simp_all [Plain, Steady]

theorem Phase.steady_of_rebindingTo {x : Phase} {c : ℤ} (h : x.rebindingTo = some c) : x.Steady := by
  cases x <;> simp_all [rebindingTo, Steady]

theorem Phase.rebindingTo_of_plain {x : Phase} (h : x.Plain) : x.rebindingTo = none := by
  cases x with
  | rebinding reserve capacity leaf => cases reserve <;> simp_all [Plain, rebindingTo]
  | verifying reserve capacity leaf => cases reserve <;> simp_all [Plain, rebindingTo]
  | _ => simp_all [Plain, rebindingTo]

structure View.Matched (w : View) : Prop where
  covered : w.reservation = none → w.unobserved = false
  positive : ∀ b, w.reservation = some b → 0 < b
  entered : w.phase.Steady → ∀ b, w.reservation = some b → ∃ e, w.entry = some e ∧ e.capacityBytes = b
  measuring : ∀ c l, w.phase = .measuring c l → w.entry = none ∧ w.reservation = none
  reserving : ∀ c l p, w.phase = .reserving c l p → w.entry = none ∧ w.reservation = none
  recording : ∀ c l p, w.phase = .recording c l p → w.entry = none ∧ w.reservation = some c ∧ w.unobserved = true
  settling : w.phase = .settlingReturn true → w.reservation = none
  dropping : ∀ c, w.phase = .dropping c → w.reservation = none

theorem View.Matched.steady {y : Phase} {e : Option BorrowedAllocation} {r : Option ℤ} {u : Bool} (hy : y.Steady)
    (hc : r = none → u = false) (hp : ∀ b, r = some b → 0 < b)
    (he : ∀ b, r = some b → ∃ a, e = some a ∧ a.capacityBytes = b) :
    View.Matched ⟨y, e, r, u⟩ := by
  constructor
  · exact hc
  · exact hp
  · exact fun _ => he
  all_goals
    intros
    subst_vars
    cases hy

variable {v : Sandbox} {a : Action τ} {o : Event} {w w' : View}

theorem LocalStep.matched (h : LocalStep v a o w w') (hw : w.Matched) : w'.Matched := by
  cases h with
  | plain hx hy he _ =>
    apply View.Matched.steady (Phase.steady_of_plain hy) hw.covered hw.positive
    intro b hb
    obtain ⟨entry, hentry, hcap⟩ := hw.entered (Phase.steady_of_plain hx) b hb
    dsimp only at hentry
    rw [hentry] at he
    obtain ⟨entry', hentry', hcap'⟩ := Option.map_eq_some_iff.mp he
    exact ⟨entry', hentry', (congrArg Prod.fst hcap').trans hcap⟩
  | @measure r u capacity leaf before =>
    have hnone : r = none := by
      cases r with
      | none => rfl
      | some b =>
        obtain ⟨entry, hentry, _⟩ := hw.entered rfl b rfl
        cases hentry
    subst hnone
    exact ⟨hw.covered, hw.positive, by simp [Phase.Steady], by simp, by simp, by simp, by simp, by simp⟩
  | measured capacity leaf parentShared _ =>
    have := hw.measuring _ _ rfl
    exact ⟨hw.covered, hw.positive, by simp [Phase.Steady], by simp, fun _ _ _ _ => this, by simp, by simp, by simp⟩
  | unmeasured capacity leaf =>
    obtain ⟨_, hr⟩ := hw.measuring _ _ rfl
    dsimp only at hr
    exact .steady rfl hw.covered hw.positive (by simp [hr])
  | refused capacity leaf parentShared =>
    obtain ⟨_, hr⟩ := hw.reserving _ _ _ rfl
    dsimp only at hr
    exact .steady rfl hw.covered hw.positive (by simp [hr])
  | reserve capacity leaf parentShared hpos _ _ =>
    obtain ⟨he, _⟩ := hw.reserving _ _ _ rfl
    refine ⟨by simp, by simpa using hpos, by simp [Phase.Steady], by simp, by simp, ?_, by simp, by simp⟩
    intro c l p hp
    obtain ⟨rfl, rfl, rfl⟩ := Phase.recording.inj hp
    exact ⟨he, rfl, rfl⟩
  | record capacity leaf parentShared =>
    obtain ⟨_, hr, _⟩ := hw.recording _ _ _ rfl
    apply View.Matched.steady rfl hw.covered hw.positive
    intro b hb
    dsimp only at hr
    rw [hr] at hb
    exact ⟨_, rfl, Option.some.inj hb⟩
  | reuse entry _ => exact .steady rfl hw.covered hw.positive (hw.entered rfl)
  | progress capacity hx hy _ =>
    exact .steady (Phase.steady_of_rebindingTo hy) hw.covered hw.positive (hw.entered (Phase.steady_of_rebindingTo hx))
  | halt capacity hx hy _ =>
    exact .steady (Phase.steady_of_plain hy) hw.covered hw.positive (hw.entered (Phase.steady_of_rebindingTo hx))
  | settle capacity => exact .steady rfl (fun _ => rfl) hw.positive (hw.entered rfl)
  | release cause hy =>
    rcases hy with rfl | rfl
    · exact ⟨fun _ => rfl, by simp, by simp, by simp, by simp, by simp, fun _ => rfl, fun _ _ => rfl⟩
    · exact ⟨fun _ => rfl, by simp, by simp, by simp, by simp, by simp, fun _ => rfl, fun _ _ => rfl⟩
  | returned =>
    have hr := hw.settling rfl
    exact ⟨hw.covered, hw.positive, by simp [Phase.Steady], by simp, by simp, by simp, by simp, fun _ _ => hr⟩
  | lost shared _ _ =>
    have hr := hw.settling rfl
    dsimp only at hr
    exact .steady rfl hw.covered hw.positive (by simp [hr])
  | drop cause =>
    have hr := hw.dropping _ rfl
    dsimp only at hr
    exact .steady rfl hw.covered hw.positive (by simp [hr])

def View.Kept (w : View) : Prop := w.phase.Steady → ∀ e, w.entry = some e → w.reservation ≠ none

def View.Observed (w : View) (v : Sandbox) (a : Action τ) : Prop :=
  w.phase = .settlingReturn true → ∀ shared, a = .parentShared v shared → ∃ n, 0 ≤ n ∧ shared = some n

theorem LocalStep.kept (h : LocalStep v a o w w') (hw : w.Matched) (hk : w.Kept) (ha : w.Observed v a) : w'.Kept := by
  cases h with
  | plain hx hy he _ =>
    intro _ e' he'
    dsimp only at he'
    rw [he'] at he
    obtain ⟨e, hentry, _⟩ := Option.map_eq_some_iff.mp he.symm
    exact hk (Phase.steady_of_plain hx) e hentry
  | measure capacity leaf before => simp [View.Kept]
  | measured capacity leaf parentShared _ => simp [View.Kept, Phase.Steady]
  | unmeasured capacity leaf =>
    obtain ⟨he, _⟩ := hw.measuring _ _ rfl
    dsimp only at he
    simp [View.Kept, he]
  | refused capacity leaf parentShared =>
    obtain ⟨he, _⟩ := hw.reserving _ _ _ rfl
    dsimp only at he
    simp [View.Kept, he]
  | reserve capacity leaf parentShared _ _ _ => simp [View.Kept]
  | record capacity leaf parentShared =>
    obtain ⟨_, hr, _⟩ := hw.recording _ _ _ rfl
    dsimp only at hr
    simp [View.Kept, hr]
  | reuse entry _ => exact fun _ => hk rfl
  | progress capacity hx hy _ => exact fun _ => hk (Phase.steady_of_rebindingTo hx)
  | halt capacity hx hy _ => exact fun _ => hk (Phase.steady_of_rebindingTo hx)
  | settle capacity => exact fun _ => hk rfl
  | release cause hy => rcases hy with rfl | rfl <;> simp [View.Kept, Phase.Steady]
  | returned => simp [View.Kept, Phase.Steady]
  | lost shared hs hneg =>
    obtain ⟨n, hn, hsome⟩ := ha rfl shared hs
    have := hneg n hsome
    omega
  | drop cause => simp [View.Kept]

def View.Charged (w : View) : Prop :=
  ∀ c, w.phase.rebindingTo = some c → w.reservation = some c ∧ w.unobserved = true

def View.Unsettled (w : View) (v : Sandbox) (a : Action τ) : Prop :=
  a = .decide v → ∀ entry, w.entry = some entry → w.phase = .deciding entry.capacityBytes entry.leaf .localNode →
    w.unobserved = true

theorem LocalStep.charged (h : LocalStep v a o w w') (hw : w.Matched) (hc : w.Charged) (ha : w.Unsettled v a) :
    w'.Charged := by
  cases h with
  | plain hx hy he _ => simp [View.Charged, Phase.rebindingTo_of_plain hy]
  | measure capacity leaf before => simp [View.Charged, Phase.rebindingTo]
  | measured capacity leaf parentShared _ => simp [View.Charged, Phase.rebindingTo]
  | unmeasured capacity leaf => simp [View.Charged, Phase.rebindingTo]
  | refused capacity leaf parentShared => simp [View.Charged, Phase.rebindingTo]
  | reserve capacity leaf parentShared _ _ _ => simp [View.Charged, Phase.rebindingTo]
  | record capacity leaf parentShared =>
    obtain ⟨_, hr, hu⟩ := hw.recording _ _ _ rfl
    dsimp only at hr hu
    simp [View.Charged, Phase.rebindingTo, hr, hu]
  | @reuse r u entry hd =>
    have hu : u = true := ha hd entry rfl rfl
    have hsome : r ≠ none := by
      intro hr
      have := hw.covered hr
      dsimp only at this
      rw [hu] at this
      cases this
    obtain ⟨b, rfl⟩ := Option.ne_none_iff_exists'.mp hsome
    obtain ⟨e, he, hcap⟩ := hw.entered rfl b rfl
    obtain rfl := Option.some.inj he
    simp [View.Charged, Phase.rebindingTo, hu, hcap]
  | progress capacity hx hy _ =>
    intro c hcap
    dsimp only at hcap
    rw [hy] at hcap
    obtain rfl := Option.some.inj hcap
    exact hc capacity hx
  | halt capacity hx hy _ => simp [View.Charged, Phase.rebindingTo_of_plain hy]
  | settle capacity => simp [View.Charged, Phase.rebindingTo]
  | release cause hy => rcases hy with rfl | rfl <;> simp [View.Charged, Phase.rebindingTo]
  | returned => simp [View.Charged, Phase.rebindingTo]
  | lost shared _ _ => simp [View.Charged, Phase.rebindingTo]
  | drop cause => simp [View.Charged, Phase.rebindingTo]

theorem LocalStep.released (h : LocalStep v a o w w') (hr : w.reservation ≠ none) (hr' : w'.reservation = none) :
    ∃ cause, w.phase = .releasing cause := by
  cases h with
  | release cause hy => exact ⟨cause, rfl⟩
  | reserve capacity leaf parentShared _ _ _ => cases hr'
  | _ => exact absurd hr' hr

theorem LocalStep.releasing (h : LocalStep v a o w w') {cause : Cause} (hw : w'.phase = .releasing cause) :
    w.phase.Clears v a := by
  cases h with
  | plain _ _ _ hc => exact hc.cleared cause hw
  | halt _ _ _ hc => exact hc.cleared cause hw
  | progress _ _ hy _ =>
    dsimp only at hw
    rw [hw] at hy
    cases hy
  | release cause' hy => rcases hy with rfl | rfl <;> cases hw
  | _ => cases hw

theorem LocalStep.leaf (h : LocalStep v a o w w') {l : Leaf} (hl : w'.phase.leaf = some l) :
    w.phase.leaf = some l ∨ a = .locate v (some l) := by
  cases h with
  | plain _ _ _ hc => exact hc.leaf l hl
  | halt _ _ _ hc => exact hc.leaf l hl
  | progress _ _ _ hc => exact hc.leaf l hl
  | release cause' hy => rcases hy with rfl | rfl <;> cases hl
  | measure | measured | reserve | record | reuse => exact .inl hl
  | _ => cases hl

theorem LocalStep.reserving (h : LocalStep v a o w w') {c p : ℤ} {l : Leaf} (hw : w'.phase = .reserving c l p) :
    a = .parentShared v (some p) := by
  cases h with
  | measured _ _ _ ha =>
    obtain ⟨-, -, rfl⟩ := Phase.reserving.inj hw
    exact ha
  | plain _ hy _ _ | halt _ _ hy _ =>
    dsimp only at hw
    rw [hw] at hy
    cases hy
  | progress _ _ hy _ =>
    dsimp only at hw
    rw [hw] at hy
    cases hy
  | release cause hy => rcases hy with rfl | rfl <;> cases hw
  | _ => cases hw

theorem LocalStep.recording (h : LocalStep v a o w w') {c p : ℤ} {l : Leaf} (hw : w'.phase = .recording c l p) :
    w.phase = .reserving c l p ∧ a = .reserve v ∧ o = .running := by
  cases h with
  | reserve _ _ _ _ ha ho =>
    obtain ⟨rfl, rfl, rfl⟩ := Phase.recording.inj hw
    exact ⟨rfl, ha, ho⟩
  | plain _ hy _ _ | halt _ _ hy _ =>
    dsimp only at hw
    rw [hw] at hy
    cases hy
  | progress _ _ hy _ =>
    dsimp only at hw
    rw [hw] at hy
    cases hy
  | release cause hy => rcases hy with rfl | rfl <;> cases hw
  | _ => cases hw

theorem LocalStep.entered (h : LocalStep v a o w w') {e : BorrowedAllocation} (hw : w'.entry = some e) :
    (∃ e', w.entry = some e' ∧ e'.parentSharedBytesBefore = e.parentSharedBytesBefore) ∨
      ∃ c l, w.phase = .recording c l e.parentSharedBytesBefore := by
  cases h with
  | plain _ _ he _ =>
    left
    dsimp only at hw
    rw [hw] at he
    obtain ⟨e', he', hsame⟩ := Option.map_eq_some_iff.mp he.symm
    exact ⟨e', he', congrArg Prod.snd hsame⟩
  | record c l p =>
    right
    obtain rfl := Option.some.inj hw
    exact ⟨c, l, rfl⟩
  | measure | drop => cases hw
  | _ => exact .inl ⟨e, hw, rfl⟩

theorem LocalStep.inspected (h : LocalStep v a o w w') {e : BorrowedAllocation} (hw : w'.phase = .inspecting e) :
    w'.entry = some e := by
  cases h with
  | plain _ _ _ hc => exact hc.inspected e hw
  | halt _ _ _ hc => exact hc.inspected e hw
  | progress _ _ _ hc => exact hc.inspected e hw
  | release cause hy => rcases hy with rfl | rfl <;> cases hw
  | _ => cases hw

end ClawBox.Numa
