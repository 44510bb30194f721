import ClawBox.Knowledge.Futures

namespace ClawBox.Knowledge

open Transition

namespace Message

def token : Message → Option Job
  | .commit job | .continuation job => some job
  | _ => none

def asked : Message → Option Job
  | .request job => some job
  | _ => none

end Message

namespace Process

def tokens (o : Process) (hand : List Job) : List Job := hand ++ (o.writing ++ o.inbox.filterMap Message.token)

def requests (o : Process) : List Job := o.inbox.filterMap Message.asked

def calls (x : ℕ) (job : Job) : Bool := job.kind = .call x

theorem queue_set (o : Process) (x y : ℕ) (l : List Job) :
    ({ o with pending := o.pending.set x l } : Process).queue y = if y = x then l else o.queue y := by
  unfold queue
  dsimp only
  rw [PyDict.get?_set]
  split_ifs <;> rfl

/-- `taken` came out of the inbox, `hand` is being run, `answered` is done. -/
structure Lane (o : Process) (hand taken answered : List Job) : Prop where
  located : ∀ j ∈ taken, j ∈ answered ∨ j ∈ o.tokens hand ∨ (∃ x, j.kind = .call x ∧ j ∈ o.queue x) ∨
    o.stopping = some j
  single : ∀ x, (o.tokens hand).countP (calls x) = if x ∈ o.busy then 1 else 0
  busyOnce : o.busy.Nodup
  queued : ∀ x, ∀ j ∈ o.queue x, x ∈ o.busy ∧ j.kind = .call x ∧ j ∈ taken ∧ j ∉ answered
  tokened : ∀ j ∈ o.tokens hand, (∃ x, j.kind = .call x) ∧ j ∈ taken ∧ j ∉ answered
  ahead : ∀ x, ∀ i ∈ o.tokens hand, i.kind = .call x → ∀ j ∈ o.queue x, i.ident < j.ident
  sorted : ∀ x, (o.queue x).Pairwise fun i j => i.ident < j.ident
  stopped : ∀ j, o.stopping = some j → j ∈ taken ∧ j.kind = .close
  done : ∀ j ∈ answered, j ∈ taken

variable {o : Process} {hand taken answered : List Job} {j : Job} {x : ℕ}

theorem Lane.free_of_not_busy (h : o.Lane hand taken answered) (hx : x ∉ o.busy) :
    (∀ i ∈ o.tokens hand, i.kind ≠ .call x) ∧ o.queue x = [] := by
  constructor
  · intro i hi hk
    have hcount := h.single x
    rw [if_neg hx, List.countP_eq_zero] at hcount
    exact hcount i hi (by simp [calls, hk])
  · refine List.eq_nil_iff_forall_not_mem.mpr fun i hi => ?_
    exact hx (h.queued x i hi).1

theorem Lane.alone (h : o.Lane [j] taken answered) (hj : j.kind = .call x) :
    x ∈ o.busy ∧ ∀ i ∈ o.tokens [], i.kind ≠ .call x := by
  have hcount := h.single x
  have hsplit : (o.tokens [j]).countP (calls x) = (o.tokens []).countP (calls x) + 1 := by
    simp [tokens, calls, hj]
  rw [hsplit] at hcount
  by_cases hx : x ∈ o.busy
  · refine ⟨hx, ?_⟩
    rw [if_pos hx] at hcount
    have hzero : (o.tokens []).countP (calls x) = 0 := by omega
    intro i hi hk
    exact List.countP_eq_zero.mp hzero i hi (by simp [calls, hk])
  · rw [if_neg hx] at hcount
    omega

theorem tokens_perm {o o' : Process} {hand hand' : List Job} (hp : (o'.tokens hand').Perm (o.tokens hand))
    (h : o.Lane hand taken answered) (hqueue : ∀ x, o'.queue x = o.queue x) (hbusy : o'.busy = o.busy)
    (hstopping : o'.stopping = o.stopping) : o'.Lane hand' taken answered where
  located i hi := by
    rcases h.located i hi with ha | ht | ⟨x, hk, hq⟩ | hs
    · exact .inl ha
    · exact .inr (.inl (hp.mem_iff.mpr ht))
    · exact .inr (.inr (.inl ⟨x, hk, (hqueue x).symm ▸ hq⟩))
    · exact .inr (.inr (.inr (hstopping.trans hs)))
  single x := by rw [hp.countP_eq, hbusy, h.single]
  busyOnce := hbusy ▸ h.busyOnce
  queued x i hi := by
    rw [hqueue] at hi
    rw [hbusy]
    exact h.queued x i hi
  tokened i hi := h.tokened i (hp.mem_iff.mp hi)
  ahead x i hi hk k hkq := h.ahead x i (hp.mem_iff.mp hi) hk k (hqueue x ▸ hkq)
  sorted x := by
    rw [hqueue]
    exact h.sorted x
  stopped i hi := h.stopped i (hstopping ▸ hi)
  done := h.done

theorem Lane.take_token (h : o.Lane [] taken answered) {m : Message} {rest : List Message}
    (hin : o.inbox = m :: rest) (hm : m.token = some j) : o.take.Lane [j] taken answered := by
  refine tokens_perm ?_ h (fun _ => rfl) rfl rfl
  simp only [tokens, Process.take, hin, List.tail_cons, List.nil_append, List.filterMap_cons, hm, List.singleton_append]
  exact List.perm_middle.symm

theorem Lane.append (h : o.Lane hand taken answered) {m : Message} (hm : m.token = none) :
    ({ o with inbox := o.inbox ++ [m] } : Process).Lane hand taken answered := by
  refine tokens_perm (.of_eq ?_) h (fun _ => rfl) rfl rfl
  simp [tokens, hm]

theorem Lane.written (h : o.Lane hand taken answered) {rest : List Job} (hw : o.writing = j :: rest) :
    ({ o with writing := rest, inbox := o.inbox ++ [.commit j] } : Process).Lane hand taken answered := by
  refine tokens_perm ?_ h (fun _ => rfl) rfl rfl
  simp only [tokens, hw, List.filterMap_append, List.filterMap_cons, Message.token, List.filterMap_nil]
  refine List.Perm.append_left _ ?_
  rw [← List.append_assoc]
  exact List.perm_append_singleton j _

theorem Lane.suspend (h : o.Lane [j] taken answered) :
    ({ o with writing := o.writing ++ [j] } : Process).Lane [] taken answered := by
  refine tokens_perm ?_ h (fun _ => rfl) rfl rfl
  simp only [tokens, List.nil_append, List.singleton_append, List.append_assoc]
  exact List.perm_middle

theorem tokens_take {m : Message} {rest : List Message} (hin : o.inbox = m :: rest) (hm : m.token = none)
    (hand : List Job) : o.take.tokens hand = o.tokens hand := by
  simp [tokens, Process.take, hin, hm]

structure Taken (o : Process) (taken answered : List Job) (j : Job) : Prop where
  lane : o.Lane [] taken answered
  new : ∀ i ∈ taken, i.ident < j.ident

theorem Taken.fresh (h : o.Taken taken answered j) : j ∉ taken := fun hj => Nat.lt_irrefl _ (h.new j hj)

theorem Taken.unanswered (h : o.Taken taken answered j) : j ∉ answered := fun hj => h.fresh (h.lane.done j hj)

theorem Taken.occupy (h : o.Taken taken answered j) (hj : j.kind = .call x) (hx : x ∉ o.busy) :
    (o.occupy x).Lane [j] (taken ++ [j]) answered := by
  have hl := h.lane
  have hfree := hl.free_of_not_busy hx
  have htokens : (o.occupy x).tokens [j] = j :: o.tokens [] := rfl
  have hbusy : (o.occupy x).busy = x :: o.busy := if_neg hx
  refine ⟨?_, ?_, ?_, ?_, ?_, ?_, hl.sorted, ?_, ?_⟩
  · intro i hi
    rw [htokens]
    rcases List.mem_append.mp hi with hi | hi
    · rcases hl.located i hi with ha | ht | hq
      · exact .inl ha
      · exact .inr (.inl (List.mem_cons_of_mem _ ht))
      · exact .inr (.inr hq)
    · rw [List.mem_singleton.mp hi]
      exact .inr (.inl List.mem_cons_self)
  · intro y
    have hcount := hl.single y
    rw [htokens, List.countP_cons, hcount, hbusy]
    by_cases hy : y = x
    · simp [hy, calls, hj, hx]
    · have hne : ¬(j.kind = .call y) := by
        rw [hj]
        intro he
        exact hy (Kind.call.inj he).symm
      simp [hy, calls, hne]
  · rw [hbusy]
    exact List.nodup_cons.mpr ⟨hx, hl.busyOnce⟩
  · intro y i hi
    obtain ⟨hy, hk, ht, ha⟩ := hl.queued y i hi
    rw [hbusy]
    exact ⟨List.mem_cons_of_mem _ hy, hk, List.mem_append_left _ ht, ha⟩
  · intro i hi
    rw [htokens] at hi
    rcases List.mem_cons.mp hi with rfl | hi
    · exact ⟨⟨x, hj⟩, List.mem_append_right _ (List.mem_singleton_self _), h.unanswered⟩
    · obtain ⟨hk, ht, ha⟩ := hl.tokened i hi
      exact ⟨hk, List.mem_append_left _ ht, ha⟩
  · intro y i hi hk k hkq
    rw [htokens] at hi
    rcases List.mem_cons.mp hi with rfl | hi
    · have hyx : x = y := Kind.call.inj (hj.symm.trans hk)
      have hkq : k ∈ o.queue y := hkq
      rw [← hyx, hfree.2] at hkq
      cases hkq
    · exact hl.ahead y i hi hk k hkq
  · intro i hi
    obtain ⟨ht, hk⟩ := hl.stopped i hi
    exact ⟨List.mem_append_left _ ht, hk⟩
  · intro i hi
    exact List.mem_append_left _ (hl.done i hi)

theorem Taken.defer (h : o.Taken taken answered j) (hj : j.kind = .call x) (hx : x ∈ o.busy) :
    (o.defer x j).Lane [] (taken ++ [j]) answered := by
  have hl := h.lane
  have hqueue : ∀ y, (o.defer x j).queue y = if y = x then o.queue x ++ [j] else o.queue y := fun y => queue_set o x y _
  have hmem : ∀ y, ∀ i ∈ o.queue y, i ∈ (o.defer x j).queue y := by
    intro y i hi
    rw [hqueue]
    split_ifs with hy
    · exact List.mem_append_left _ (hy ▸ hi)
    · exact hi
  have hback : ∀ y, ∀ i ∈ (o.defer x j).queue y, i ∈ o.queue y ∨ (y = x ∧ i = j) := by
    intro y i hi
    rw [hqueue] at hi
    split_ifs at hi with hy
    · rcases List.mem_append.mp hi with hi | hi
      · exact .inl (hy ▸ hi)
      · exact .inr ⟨hy, List.mem_singleton.mp hi⟩
    · exact .inl hi
  refine ⟨?_, hl.single, hl.busyOnce, ?_, ?_, ?_, ?_, ?_, ?_⟩
  · intro i hi
    rcases List.mem_append.mp hi with hi | hi
    · rcases hl.located i hi with ha | ht | ⟨y, hk, hq⟩ | hs
      · exact .inl ha
      · exact .inr (.inl ht)
      · exact .inr (.inr (.inl ⟨y, hk, hmem y i hq⟩))
      · exact .inr (.inr (.inr hs))
    · rw [List.mem_singleton.mp hi]
      refine .inr (.inr (.inl ⟨x, hj, ?_⟩))
      rw [hqueue, if_pos rfl]
      exact List.mem_append_right _ (List.mem_singleton_self _)
  · intro y i hi
    rcases hback y i hi with hi | ⟨rfl, rfl⟩
    · obtain ⟨hy, hk, ht, ha⟩ := hl.queued y i hi
      exact ⟨hy, hk, List.mem_append_left _ ht, ha⟩
    · exact ⟨hx, hj, List.mem_append_right _ (List.mem_singleton_self _), h.unanswered⟩
  · intro i hi
    obtain ⟨hk, ht, ha⟩ := hl.tokened i hi
    exact ⟨hk, List.mem_append_left _ ht, ha⟩
  · intro y i hi hk k hkq
    rcases hback y k hkq with hkq | ⟨-, rfl⟩
    · exact hl.ahead y i hi hk k hkq
    · exact h.new i (hl.tokened i hi).2.1
  · intro y
    rw [hqueue]
    split_ifs with hy
    · rw [List.pairwise_append]
      refine ⟨hl.sorted x, List.pairwise_singleton _ _, ?_⟩
      intro i hi k hk
      rw [List.mem_singleton.mp hk]
      exact h.new i (hl.queued x i hi).2.2.1
    · exact hl.sorted y
  · intro i hi
    obtain ⟨ht, hk⟩ := hl.stopped i hi
    exact ⟨List.mem_append_left _ ht, hk⟩
  · intro i hi
    exact List.mem_append_left _ (hl.done i hi)

theorem Taken.plain (h : o.Taken taken answered j) (hj : ∀ y, j.kind ≠ .call y) (hclose : j.kind ≠ .close) :
    o.Lane [] (taken ++ [j]) (j :: answered) := by
  have hl := h.lane
  refine ⟨?_, hl.single, hl.busyOnce, ?_, ?_, hl.ahead, hl.sorted, ?_, ?_⟩
  · intro i hi
    rcases List.mem_append.mp hi with hi | hi
    · exact (hl.located i hi).imp_left (List.mem_cons_of_mem _)
    · rw [List.mem_singleton.mp hi]
      exact .inl List.mem_cons_self
  · intro y i hi
    obtain ⟨hy, hk, ht, ha⟩ := hl.queued y i hi
    refine ⟨hy, hk, List.mem_append_left _ ht, List.not_mem_cons_of_ne_of_not_mem ?_ ha⟩
    rintro rfl
    exact hj y hk
  · intro i hi
    obtain ⟨⟨y, hk⟩, ht, ha⟩ := hl.tokened i hi
    refine ⟨⟨y, hk⟩, List.mem_append_left _ ht, List.not_mem_cons_of_ne_of_not_mem ?_ ha⟩
    rintro rfl
    exact hj y hk
  · intro i hi
    obtain ⟨ht, hk⟩ := hl.stopped i hi
    exact ⟨List.mem_append_left _ ht, hk⟩
  · intro i hi
    rcases List.mem_cons.mp hi with rfl | hi
    · exact List.mem_append_right _ (List.mem_singleton_self _)
    · exact List.mem_append_left _ (hl.done i hi)

theorem Taken.close (h : o.Taken taken answered j) (hj : j.kind = .close) (hnone : o.stopping = none) :
    ({ o with stopping := some j } : Process).Lane [] (taken ++ [j]) answered := by
  have hl := h.lane
  refine ⟨?_, hl.single, hl.busyOnce, ?_, ?_, hl.ahead, hl.sorted, ?_, ?_⟩
  · intro i hi
    rcases List.mem_append.mp hi with hi | hi
    · rcases hl.located i hi with ha | ht | hq | hs
      · exact .inl ha
      · exact .inr (.inl ht)
      · exact .inr (.inr (.inl hq))
      · rw [hnone] at hs
        cases hs
    · rw [List.mem_singleton.mp hi]
      exact .inr (.inr (.inr rfl))
  · intro y i hi
    obtain ⟨hy, hk, ht, ha⟩ := hl.queued y i hi
    exact ⟨hy, hk, List.mem_append_left _ ht, ha⟩
  · intro i hi
    obtain ⟨hk, ht, ha⟩ := hl.tokened i hi
    exact ⟨hk, List.mem_append_left _ ht, ha⟩
  · intro i hi
    cases hi
    exact ⟨List.mem_append_right _ (List.mem_singleton_self _), hj⟩
  · intro i hi
    exact List.mem_append_left _ (hl.done i hi)

theorem Lane.closed (h : o.Lane [] taken answered) (hj : o.stopping = some j) (alive : Bool) :
    ({ o with alive := alive } : Process).Lane [] taken (j :: answered) := by
  obtain ⟨hjt, hclose⟩ := h.stopped j hj
  refine ⟨?_, h.single, h.busyOnce, ?_, ?_, h.ahead, h.sorted, h.stopped, ?_⟩
  · intro i hi
    exact (h.located i hi).imp_left (List.mem_cons_of_mem _)
  · intro y i hi
    obtain ⟨hy, hk, ht, ha⟩ := h.queued y i hi
    refine ⟨hy, hk, ht, List.not_mem_cons_of_ne_of_not_mem ?_ ha⟩
    rintro rfl
    rw [hclose] at hk
    cases hk
  · intro i hi
    obtain ⟨⟨y, hk⟩, ht, ha⟩ := h.tokened i hi
    refine ⟨⟨y, hk⟩, ht, List.not_mem_cons_of_ne_of_not_mem ?_ ha⟩
    rintro rfl
    rw [hclose] at hk
    cases hk
  · intro i hi
    rcases List.mem_cons.mp hi with rfl | hi
    · exact hjt
    · exact h.done i hi

theorem Lane.release (h : o.Lane [j] taken answered) (hj : j.kind = .call x) :
    (o.release x).Lane [] taken (j :: answered) := by
  obtain ⟨hbusy, halone⟩ := h.alone hj
  have hjt : j ∈ taken := (h.tokened j List.mem_cons_self).2.1
  have hwith : ∀ i, i ∈ o.tokens [j] ↔ i = j ∨ i ∈ o.tokens [] := fun i => List.mem_cons
  have hcount : ∀ y, (o.tokens [j]).countP (calls y) = (o.tokens []).countP (calls y) + if y = x then 1 else 0 := by
    intro y
    by_cases hy : y = x
    · simp [tokens, calls, hj, hy]
    · have hne : ¬(x = y) := fun he => hy he.symm
      simp [tokens, calls, hj, hy, hne]
  have hother : ∀ i ∈ o.tokens [], (∃ y, i.kind = .call y) ∧ i ∈ taken ∧ i ∉ j :: answered := by
    intro i hi
    obtain ⟨hk, ht, ha⟩ := h.tokened i ((hwith i).mpr (.inr hi))
    refine ⟨hk, ht, List.not_mem_cons_of_ne_of_not_mem ?_ ha⟩
    rintro rfl
    exact halone i hi hj
  have hwait : ∀ y, ∀ i ∈ o.queue y, y ∈ o.busy ∧ i.kind = .call y ∧ i ∈ taken ∧ i ∉ j :: answered := by
    intro y i hi
    obtain ⟨hy, hk, ht, ha⟩ := h.queued y i hi
    refine ⟨hy, hk, ht, List.not_mem_cons_of_ne_of_not_mem ?_ ha⟩
    rintro rfl
    exact Nat.lt_irrefl _ (h.ahead y i ((hwith i).mpr (.inl rfl)) hk i hi)
  have hdone : ∀ i ∈ j :: answered, i ∈ taken := by
    intro i hi
    rcases List.mem_cons.mp hi with rfl | hi
    · exact hjt
    · exact h.done i hi
  unfold Process.release
  cases hq : o.queue x with
  | nil =>
    dsimp only
    refine ⟨?_, ?_, h.busyOnce.erase x, ?_, hother, ?_, h.sorted, h.stopped, hdone⟩
    · intro i hi
      rcases h.located i hi with ha | ht | hrest
      · exact .inl (List.mem_cons_of_mem _ ha)
      · rcases (hwith i).mp ht with rfl | ht
        · exact .inl List.mem_cons_self
        · exact .inr (.inl ht)
      · exact .inr (.inr hrest)
    · intro y
      have hy := h.single y
      rw [hcount] at hy
      show (o.tokens []).countP (calls y) = if y ∈ o.busy.erase x then 1 else 0
      by_cases hyx : y = x
      · have hgone : x ∉ o.busy.erase x := fun hm => (List.Nodup.mem_erase_iff h.busyOnce).mp hm |>.1 rfl
        subst hyx
        rw [if_pos rfl, if_pos hbusy] at hy
        rw [if_neg hgone]
        omega
      · rw [if_neg hyx, Nat.add_zero] at hy
        rw [hy]
        simp only [List.mem_erase_of_ne hyx]
    · intro y i hi
      obtain ⟨hy, hrest⟩ := hwait y i hi
      refine ⟨(List.mem_erase_of_ne ?_).mpr hy, hrest⟩
      rintro rfl
      have hi : i ∈ o.queue y := hi
      rw [hq] at hi
      cases hi
    · intro y i hi hk k hkq
      exact h.ahead y i ((hwith i).mpr (.inr hi)) hk k hkq
  | cons k rest =>
    dsimp only
    have hk : k.kind = .call x := (h.queued x k (hq ▸ List.mem_cons_self)).2.1
    have hsorted := h.sorted x
    rw [hq, List.pairwise_cons] at hsorted
    have htokens : ∀ i, i ∈ ({ o with inbox := o.inbox ++ [.continuation k], pending := o.pending.set x rest } :
        Process).tokens [] ↔ i ∈ o.tokens [] ∨ i = k := by
      intro i
      simp [tokens, Message.token, or_assoc]
    have hqueue := fun y => queue_set { o with inbox := o.inbox ++ [.continuation k] } x y rest
    have hback : ∀ y i, i ∈ ({ o with inbox := o.inbox ++ [.continuation k], pending := o.pending.set x rest } :
        Process).queue y → i ∈ o.queue y := by
      intro y i hi
      rw [hqueue] at hi
      split_ifs at hi with hy
      · rw [hy, hq]
        exact List.mem_cons_of_mem _ hi
      · exact hi
    refine ⟨?_, ?_, h.busyOnce, ?_, ?_, ?_, ?_, h.stopped, hdone⟩
    · intro i hi
      rcases h.located i hi with ha | ht | ⟨y, hky, hiq⟩ | hs
      · exact .inl (List.mem_cons_of_mem _ ha)
      · rcases (hwith i).mp ht with rfl | ht
        · exact .inl List.mem_cons_self
        · exact .inr (.inl ((htokens i).mpr (.inl ht)))
      · by_cases hy : y = x
        · subst hy
          rw [hq] at hiq
          rcases List.mem_cons.mp hiq with rfl | hiq
          · exact .inr (.inl ((htokens i).mpr (.inr rfl)))
          · refine .inr (.inr (.inl ⟨y, hky, ?_⟩))
            rw [hqueue, if_pos rfl]
            exact hiq
        · refine .inr (.inr (.inl ⟨y, hky, ?_⟩))
          rw [hqueue, if_neg hy]
          exact hiq
      · exact .inr (.inr (.inr hs))
    · intro y
      have hy := h.single y
      rw [hcount] at hy
      rw [← hy]
      by_cases hyx : y = x
      · simp [tokens, Message.token, calls, hk, hyx, Nat.add_assoc]
      · have hne : ¬(x = y) := fun he => hyx he.symm
        simp [tokens, Message.token, calls, hk, hyx, hne]
    · intro y i hi
      exact hwait y i (hback y i hi)
    · intro i hi
      rcases (htokens i).mp hi with hi | rfl
      · exact hother i hi
      · obtain ⟨-, hrest⟩ := hwait x i (hq ▸ List.mem_cons_self)
        exact ⟨⟨x, hk⟩, hrest.2⟩
    · intro y i hi hky m hm
      rcases (htokens i).mp hi with hi | rfl
      · exact h.ahead y i ((hwith i).mpr (.inr hi)) hky m (hback y m hm)
      · have hyx : y = x := Kind.call.inj (hky.symm.trans hk)
        rw [hqueue, if_pos hyx] at hm
        exact hsorted.1 m hm
    · intro y
      rw [hqueue]
      split_ifs
      · exact hsorted.2
      · exact h.sorted y

end Process

end ClawBox.Knowledge
