import ClawBox.Admission.LockInvariant

namespace ClawBox.AdmissionLock

open Transition

def ahead (w : Waiter) (l : List Waiter) : List Waiter := l.takeWhile (· ≠ w)

theorem ahead_split {w : Waiter} {pre post : List Waiter} (h : w ∉ pre) : ahead w (pre ++ w :: post) = pre := by
  induction pre with
  | nil => simp [ahead]
  | cons v pre ih =>
    simp only [List.mem_cons, not_or] at h
    have hv : v ≠ w := Ne.symm h.1
    simpa [ahead, hv] using ih h.2

theorem ahead_append {w : Waiter} {l m : List Waiter} (h : w ∈ l) : ahead w (l ++ m) = ahead w l := by
  induction l with
  | nil => cases h
  | cons v l ih =>
    by_cases hv : v = w
    · simp [ahead, hv]
    · have hm : w ∈ l := (List.mem_cons.mp h).resolve_left (Ne.symm hv)
      simpa [ahead, hv] using ih hm

theorem ahead_erase {v w : Waiter} (l : List Waiter) (h : v ≠ w) : ahead w (l.erase v) = (ahead w l).erase v := by
  induction l with
  | nil => rfl
  | cons x l ih =>
    by_cases hx : x = v
    · subst x
      simp [ahead, h]
    · by_cases hw : x = w
      · subst x
        simp [ahead, List.erase_cons_tail, hx]
      · simpa [ahead, List.erase_cons_tail, hx, hw] using ih

inductive QueueStep (l l' : Lock) : Option Waiter → Prop
  | keep : l'.burst = l.burst → l'.normal = l.normal → QueueStep l l' none
  | join (v : Waiter) : l'.burst = l.burst → l'.normal = l.normal ++ [v] → QueueStep l l' none
  | leave (v : Waiter) : l'.burst = l.burst → l'.normal = l.normal.erase v → QueueStep l l' none
  | drain : l.normal = [] → l'.normal = [] → QueueStep l l' none
  | progress (v : Waiter) : v.progress = true → l'.normal = l.normal → (l.normal = [] ∨ l.burst < 8) →
      l'.burst = l.burst + 1 → QueueStep l l' (some v)
  | ordinary (v : Waiter) : v.progress = false → l.normal = v :: l'.normal → l'.burst = 0 → QueueStep l l' (some v)

theorem handoff_queue {s : State} (h : Inv s) (d : ℕ) :
    QueueStep s.lock (Lock.handoff { s.lock with depth := d }).1 (Lock.handoff { s.lock with depth := d }).2 := by
  rcases handoff_cases { s.lock with depth := d } with ⟨w, rest, hp, hb, hh⟩ | ⟨w, rest, hn, hb, hh⟩ | ⟨hp, hn, hh⟩
  · have hw : w ∈ s.lock.queue true := by simp [Lock.queue, show s.lock.progress = w :: rest from hp]
    rw [hh]
    exact .progress w (h.kind true w hw) rfl hb rfl
  · have hw : w ∈ s.lock.queue false := by simp [Lock.queue, show s.lock.normal = w :: rest from hn]
    rw [hh]
    exact .ordinary w (h.kind false w hw) hn rfl
  · rw [hh]
    exact .drain hn hn

theorem acquire_queue (s : State) (t : Thread) (blocking : Bool) (timeout : ℤ) (progress : Bool) (r : Option Saved) :
    QueueStep s.lock (s.acquire t blocking timeout progress r).1.lock
      (s.acquire t blocking timeout progress r).2.handoff := by
  unfold State.acquire
  dsimp only
  split_ifs
  · exact .keep rfl rfl
  · exact .keep rfl rfl
  · exact .keep rfl rfl
  · exact .keep rfl rfl
  · exact .keep rfl rfl
  · exact .join _ rfl rfl

theorem recheck_queue (s : State) (t : Thread) (w : Waiter) :
    QueueStep s.lock (s.recheck t w).1.lock (s.recheck t w).2.handoff := by
  unfold State.recheck
  dsimp only
  split_ifs
  · exact .keep rfl rfl
  · exact .keep rfl rfl
  · exact .keep rfl rfl
  · exact .leave w rfl rfl
  · exact .keep rfl rfl

theorem release_queue {s : State} (h : Inv s) (t : Thread) :
    QueueStep s.lock (s.release t).1.lock (s.release t).2.handoff := by
  unfold State.release
  dsimp only
  split_ifs
  · exact .keep rfl rfl
  · exact handoff_queue h _
  · exact .keep rfl rfl

theorem releaseSave_queue {s : State} (h : Inv s) (t : Thread) :
    QueueStep s.lock (s.releaseSave t).1.lock (s.releaseSave t).2.handoff := by
  unfold State.releaseSave
  dsimp only
  split_ifs
  · exact .keep rfl rfl
  · exact handoff_queue h s.lock.depth

theorem next_queue {s s' : State} {a : Action} {e : Event} (h : Inv s) (hn : next s a = some (s', e)) :
    QueueStep s.lock s'.lock e.handoff := by
  have split : ∀ r : State × Event, some r = some (s', e) → QueueStep s.lock r.1.lock r.2.handoff →
      QueueStep s.lock s'.lock e.handoff := by
    rintro r ⟨⟩ hq
    exact hq
  cases a with
  | acquire t blocking timeout progress =>
    simp only [next] at hn
    split at hn
    · exact split _ hn (acquire_queue ..)
    · cases hn
  | wake t =>
    simp only [next] at hn
    split at hn
    · split_ifs at hn
      exact split _ hn (.keep rfl rfl)
    · cases hn
  | expire t =>
    simp only [next] at hn
    split at hn
    · exact split _ hn (.keep rfl rfl)
    · cases hn
  | recheck t =>
    simp only [next] at hn
    split at hn
    · exact split _ hn (recheck_queue ..)
    · cases hn
  | release t =>
    simp only [next] at hn
    split at hn
    · exact split _ hn (release_queue h t)
    · cases hn
  | releaseSave t =>
    simp only [next] at hn
    split at hn
    · exact split _ hn (releaseSave_queue h t)
    · cases hn
  | acquireRestore t st =>
    simp only [next] at hn
    split at hn
    · split_ifs at hn
      exact split _ hn (acquire_queue ..)
    · cases hn
  | storeDepth t =>
    simp only [next] at hn
    split at hn
    · exact split _ hn (.keep rfl rfl)
    · cases hn

def whileWaiting (w : Waiter) : System State (Action × Event) := system.restrict (fun s _ => w ∈ s.lock.normal)

def progressCost (l : Action × Event) : ℕ := if l.2.handoff.any (·.progress) then 1 else 0

def bound (w : Waiter) (l : Lock) : ℕ :=
  if w ∈ l.normal then 8 * (ahead w l.normal).length + (8 - l.burst) else 0

theorem QueueStep.bound {l l' : Lock} {o : Option Waiter} (h : QueueStep l l' o) {w : Waiter} (hw : w ∈ l.normal)
    (hnd : l.normal.Nodup) : (if o.any (·.progress) then 1 else 0) + AdmissionLock.bound w l' ≤
    AdmissionLock.bound w l := by
  cases h with
  | keep hb hn => simp [AdmissionLock.bound, hb, hn]
  | join v hb hn => simp [AdmissionLock.bound, hb, hn, hw, ahead_append hw]
  | leave v hb hn =>
    by_cases hv : v = w
    · subst v
      have hgone : w ∉ l'.normal := by rw [hn]; exact hnd.not_mem_erase
      simp [AdmissionLock.bound, hgone]
    · have hlen : (ahead w l'.normal).length ≤ (ahead w l.normal).length := by
        rw [hn, ahead_erase _ hv]
        exact List.erase_sublist.length_le
      have hw' : w ∈ l'.normal := by rw [hn]; exact (List.mem_erase_of_ne (Ne.symm hv)).mpr hw
      simp only [AdmissionLock.bound, hw, hw', if_true, hb, Option.any_none, Bool.false_eq_true, if_false]
      omega
  | drain hn => simp [hn] at hw
  | progress v hv hn hb hb' =>
    have hlt : l.burst < 8 := by
      refine hb.resolve_left ?_
      intro he
      simp [he] at hw
    simp only [AdmissionLock.bound, hn, hw, if_true, hb', Option.any_some, hv]
    omega
  | ordinary v hv hn hb =>
    by_cases hvw : v = w
    · subst v
      have hgone : w ∉ l'.normal := by
        rw [hn] at hnd
        exact (List.nodup_cons.mp hnd).1
      simp [AdmissionLock.bound, hgone, hv]
    · have hw' : w ∈ l'.normal := by
        rw [hn] at hw
        exact (List.mem_cons.mp hw).resolve_left (Ne.symm hvw)
      have ha : ahead w l.normal = v :: ahead w l'.normal := by simp [ahead, hn, hvw]
      simp only [AdmissionLock.bound, hw, hw', if_true, hb, ha, Option.any_some, hv, List.length_cons]
      simp only [Bool.false_eq_true, if_false]
      omega

theorem QueueStep.ahead {l l' : Lock} {o : Option Waiter} (h : QueueStep l l' o) {w : Waiter} (hw : w ∈ l.normal)
    (hnd : l.normal.Nodup) :
    (w ∈ l'.normal → ∀ v ∈ AdmissionLock.ahead w l'.normal, v ∈ AdmissionLock.ahead w l.normal) ∧
      ∀ v, o = some v → v.progress = false → v ∈ AdmissionLock.ahead w l.normal ∨ v = w := by
  cases h with
  | keep hb hn => simp [hn]
  | join v hb hn => simp [hn, ahead_append hw]
  | leave v hb hn =>
    refine ⟨?_, by simp⟩
    intro hw' x hx
    by_cases hv : v = w
    · subst v
      rw [hn] at hw'
      exact absurd hw' hnd.not_mem_erase
    · rw [hn, ahead_erase _ hv] at hx
      exact List.mem_of_mem_erase hx
  | drain hn => simp [hn] at hw
  | progress v hv hn =>
    refine ⟨by simp [hn], ?_⟩
    rintro x ⟨⟩ hx
    simp [hv] at hx
  | ordinary v hv hn =>
    by_cases hvw : v = w
    · subst v
      have hgone : w ∉ l'.normal := by
        rw [hn] at hnd
        exact (List.nodup_cons.mp hnd).1
      refine ⟨fun hw' => absurd hw' hgone, ?_⟩
      rintro x ⟨⟩ _
      exact .inr rfl
    · have ha : AdmissionLock.ahead w l.normal = v :: AdmissionLock.ahead w l'.normal := by
        simp [AdmissionLock.ahead, hn, hvw]
      rw [ha]
      refine ⟨fun _ x hx => List.mem_cons_of_mem _ hx, ?_⟩
      rintro x ⟨⟩ _
      simp

theorem waiting_bound {s t : State} {w : Waiter} {ls : List (Action × Event)} (h : Inv s)
    (hr : Run (whileWaiting w) s ls t) : (ls.map progressCost).sum ≤ bound w s.lock := by
  have hI : ∀ s a t, Inv s → (whileWaiting w).step s a t → Inv t := fun s a t hs ha => next_inv hs ha.1
  have hΦ : ∀ s a t, Inv s → (whileWaiting w).step s a t → progressCost a + bound w t.lock ≤ bound w s.lock := by
    intro s a t hs ha
    exact (next_queue hs ha.1).bound ha.2 (hs.nodup false)
  have := hr.potential (fun s => bound w s.lock) progressCost hI hΦ h
  omega

theorem waiting_ahead {s t : State} {w : Waiter} {ls : List (Action × Event)} (h : Inv s)
    (hr : Run (whileWaiting w) s ls t) (l : Action × Event) (hl : l ∈ ls) (v : Waiter) (hv : l.2.handoff = some v)
    (hp : v.progress = false) : v ∈ ahead w s.lock.normal ∨ v = w := by
  let I (s t : State) : Prop :=
    Inv s → Inv t ∧ (w ∈ t.lock.normal → ∀ v ∈ ahead w t.lock.normal, v ∈ ahead w s.lock.normal)
  let P (s : State) (l : Action × Event) : Prop :=
    Inv s → ∀ v, l.2.handoff = some v → v.progress = false → v ∈ ahead w s.lock.normal ∨ v = w
  have hI : ∀ s t a u, I s t → (whileWaiting w).step t a u → I s u := by
    intro s t a u hst ha hs
    obtain ⟨ht, hahead⟩ := hst hs
    refine ⟨next_inv ht ha.1, ?_⟩
    intro hw x hx
    exact hahead ha.2 x (((next_queue ht ha.1).ahead ha.2 (ht.nodup false)).1 hw x hx)
  have hP : ∀ s t a u, I s t → (whileWaiting w).step t a u → P s a := by
    intro s t a u hst ha hs x hx hxp
    obtain ⟨ht, hahead⟩ := hst hs
    exact (((next_queue ht ha.1).ahead ha.2 (ht.nodup false)).2 x hx hxp).imp_left (hahead ha.2 x)
  exact (hr.labels (I := I) (P := P) (fun _ hs => ⟨hs, fun _ _ hx => hx⟩) hI hP).2 l hl h v hv hp

/-- `w` is the `pre.length + 1`-st ordinary waiter; the run goes on until it is granted or times out. -/
theorem bounded_priority {s t : State} {w : Waiter} {pre post : List Waiter} {ls : List (Action × Event)}
    (h : Reachable system s) (hq : s.lock.normal = pre ++ w :: post) (hr : Run (whileWaiting w) s ls t) :
    (ls.map progressCost).sum ≤ 8 * (pre.length + 1) ∧
      ∀ l ∈ ls, ∀ v, l.2.handoff = some v → v.progress = false → v ∈ pre ∨ v = w := by
  have hs := reachable_inv h
  have hnd : s.lock.normal.Nodup := hs.nodup false
  have hw : w ∉ pre := by
    rw [hq] at hnd
    intro hm
    exact (List.nodup_append.mp hnd).2.2 w hm w (by simp) rfl
  have ha : ahead w s.lock.normal = pre := by rw [hq]; exact ahead_split hw
  refine ⟨?_, ?_⟩
  · have hb := waiting_bound hs hr
    have hm : w ∈ s.lock.normal := by rw [hq]; simp
    rw [bound, if_pos hm, ha] at hb
    omega
  · intro l hl v hv hp
    rw [← ha]
    exact waiting_ahead hs hr l hl v hv hp

def priorityStart : State :=
  (trace next initial [.acquire 1 true (-1) false, .acquire 2 true (-1) false, .acquire 3 true (-1) true,
    .acquire 4 true (-1) true]).1

def priorityRun : State × List (Action × Event) :=
  trace (guarded (fun s _ => decide (⟨0, 2, false⟩ ∈ s.lock.normal)) next) priorityStart
    [.release 1, .wake 3, .release 3, .wake 4, .release 4]

theorem bounded_priority_two :
    (priorityRun.2.map progressCost).sum = 2 ∧ priorityRun.1.lock.owner = some 2 ∧
      (priorityRun.2.map progressCost).sum ≤ 8 * (([] : List Waiter).length + 1) := by
  have hq : priorityStart.lock.normal = [] ++ ⟨0, 2, false⟩ :: [] := rfl
  have hr : Run (whileWaiting ⟨0, 2, false⟩) priorityStart priorityRun.2 priorityRun.1 := by
    refine (run_guarded (· = initial) next _ priorityStart _).mono ?_
    intro s l t h
    exact ⟨h.1, of_decide_eq_true h.2⟩
  exact ⟨rfl, rfl, (bounded_priority ((Reachable.start (T := system) rfl).trace _) hq hr).1⟩

end ClawBox.AdmissionLock
