import ClawBox.Supervisor.Invocation

namespace ClawBox.Supervisor

open Transition

variable {cfg : Config} {s t : State} {v : Invocation}

@[simp] theorem RunState.get?_updateArm (st : RunState) (a k : ℕ) (f : ArmState → ArmState) :
    (st.updateArm a f).arms.get? k = if k = a then (st.arms.get? a).map f else st.arms.get? k := by
  unfold RunState.updateArm
  cases h : st.arms.get? a with
  | none =>
    by_cases hk : k = a
    · simp [hk, h]
    · simp [hk]
  | some x => simp only [PyDict.get?_set, Option.map_some]

def RunState.Owes (st : RunState) (w : Worker) : Prop :=
  ∃ x, st.arms.get? w.armId = some x ∧ x.taskUid = some w.task ∧ x.artifactRoot = some w.root ∧
    x.cleanupVerified = false

def RunState.Names (st : RunState) (w : Worker) : Prop :=
  ∃ x, st.arms.get? w.armId = some x ∧ x.worker = some w.root

theorem cleanup_of_outcome {r : Result} (h : isTrialOutcome r = true) : r.correctness.cleanupVerified = true := by
  by_contra hc
  simp [isTrialOutcome, hc] at h

theorem settled_cleanup (cfg : Config) (attempt a : ℕ) (timedOut cleaned : Bool) (candidate : Option Result)
    (badExit : Bool) :
    (settledResult cfg attempt a timedOut cleaned candidate badExit).correctness.cleanupVerified = cleaned := by
  cases cleaned with
  | true => rfl
  | false => rfl

theorem worker_identity {cfg : Config} {attempt a : ℕ} {timedOut cleaned badExit : Bool} {candidate : Option Result}
    (hc : candidate.all (·.attemptId = attempt)) {r : Result}
    (h : workerResult cfg attempt a timedOut cleaned candidate badExit = r) :
    r.attemptId = attempt ∧ r.armId = a ∧ r.specDigest = cfg.specDigest := by
  unfold workerResult at h
  split_ifs at h with ht
  · subst h
    exact ⟨rfl, rfl, rfl⟩
  · cases hh : handoff cfg a candidate with
    | none =>
      rw [hh] at h
      subst h
      exact ⟨rfl, rfl, rfl⟩
    | some c =>
      rw [hh] at h
      obtain ⟨hsome, hid⟩ := Option.filter_eq_some_iff.mp hh
      have hid : c.attemptId = attempt ∧ c.armId = a ∧ c.specDigest = cfg.specDigest := by
        refine ⟨?_, by simpa using hid⟩
        rw [hsome] at hc
        simpa using hc
      dsimp only at h
      split_ifs at h
      · subst h
        exact hid
      · subst h
        exact hid

theorem settled_identity {cfg : Config} {attempt a : ℕ} {timedOut cleaned badExit : Bool} {candidate : Option Result}
    (hc : candidate.all (·.attemptId = attempt)) {r : Result}
    (h : settledResult cfg attempt a timedOut cleaned candidate badExit = r) :
    r.attemptId = attempt ∧ r.armId = a ∧ r.specDigest = cfg.specDigest := by
  obtain ⟨h₁, h₂, h₃⟩ := worker_identity hc
    (rfl : workerResult cfg attempt a timedOut cleaned candidate badExit = _)
  subst h
  unfold settledResult
  cases cleaned with
  | true => exact ⟨h₁, h₂, h₃⟩
  | false => exact ⟨h₁, h₂, h₃⟩

theorem RunState.Owes.updateArm {st : RunState} {w : Worker} (h : st.Owes w) {a : ℕ} {f : ArmState → ArmState}
    (hf : ∀ x, w.armId = a → x.cleanupVerified = false →
      (f x).taskUid = x.taskUid ∧ (f x).artifactRoot = x.artifactRoot ∧ (f x).cleanupVerified = false) :
    (st.updateArm a f).Owes w := by
  obtain ⟨x, hx, htask, hroot, hclean⟩ := h
  by_cases ha : w.armId = a
  · obtain ⟨h₁, h₂, h₃⟩ := hf x ha hclean
    refine ⟨f x, ?_, h₁.trans htask, h₂.trans hroot, h₃⟩
    rw [RunState.get?_updateArm, if_pos ha, ← ha, hx, Option.map_some]
  · exact ⟨x, by rw [RunState.get?_updateArm, if_neg ha, hx], htask, hroot, hclean⟩

theorem RunState.Names.updateArm {st : RunState} {w : Worker} (h : st.Names w) {a : ℕ} {f : ArmState → ArmState}
    (hf : ∀ x, (f x).worker = x.worker) : (st.updateArm a f).Names w := by
  obtain ⟨x, hx, hw⟩ := h
  by_cases ha : w.armId = a
  · refine ⟨f x, ?_, (hf x).trans hw⟩
    rw [RunState.get?_updateArm, if_pos ha, ← ha, hx, Option.map_some]
  · exact ⟨x, by rw [RunState.get?_updateArm, if_neg ha, hx], hw⟩

namespace State

def Quiet (s : State) : Prop := s.workers = [] ∧ s.uncleaned = []

def Custody (s : State) (v : Invocation) : Phase → Prop
  | .recovering left failures =>
    (∀ w ∈ s.workers, w.armId ∈ left ∧ v.state.Names w) ∧ ∀ w ∈ s.uncleaned, w.armId ∈ left ∨ failures ≠ []
  | .reclaiming a left failures =>
    (∀ w ∈ s.workers, w.armId ∈ left ∧ w.armId ≠ a ∧ v.state.Names w) ∧
      ∀ w ∈ s.uncleaned, w.armId = a ∨ w.armId ∈ left ∨ failures ≠ []
  | .recovered failures => s.workers = [] ∧ (s.uncleaned = [] ∨ failures ≠ [])
  | .initialized | .choosing | .preparing => s.Quiet
  | .launching => s.Quiet ∧ v.state.Owes v.worker ∧ s.runState = some v.state
  | .launched | .identified | .waiting => ∀ w ∈ s.uncleaned, w = v.worker
  | .stopping _ | .cleaning _ => s.workers = [] ∧ ∀ w ∈ s.uncleaned, w = v.worker
  | .stopped | .finishing => s.workers = []
  | .settling _ cleaned => s.workers = [] ∧ (cleaned = true → s.uncleaned = [])
  | .archiving r | .storing r | .marking r | .recording r =>
    s.workers = [] ∧ (isTrialOutcome r = true → s.uncleaned = [])

structure Sound (s : State) : Prop where
  live : ∀ w ∈ s.workers, w ∈ s.uncleaned
  owed : ∀ w ∈ s.uncleaned, ∃ st, s.runState = some st ∧ st.Owes w
  begun : s.supervisor.isSome ∨ s.runState.isSome → s.created = true
  owing : ∀ v, s.supervisor = some v → ∀ w ∈ s.uncleaned, v.state.Owes w
  held : ∀ v, s.supervisor = some v → s.Custody v v.phase

theorem Sound.start : Sound {} where
  live := by simp
  owed := by simp
  begun := by simp
  owing := by simp
  held := by simp

theorem Sound.proceeds (h : s.Sound) (hv : s.supervisor = some v) {v' : Invocation}
    (hsup : t.supervisor = some v') (hcreated : t.created = s.created)
    (hstate : t.runState = s.runState) (hworkers : ∀ w ∈ t.workers, w ∈ t.uncleaned)
    (huncleaned : ∀ w ∈ t.uncleaned, w ∈ s.uncleaned) (howing : ∀ w ∈ t.uncleaned, v'.state.Owes w)
    (hheld : t.Custody v' v'.phase) : t.Sound where
  live := hworkers
  owed w hw := hstate ▸ h.owed w (huncleaned w hw)
  begun _ := hcreated.trans (h.begun (.inl (by simp [hv])))
  owing u hu := by
    cases hsup.symm.trans hu
    exact howing
  held u hu := by
    cases hsup.symm.trans hu
    exact hheld

theorem Sound.writes (h : s.Sound) (hv : s.supervisor = some v) {v' : Invocation}
    (hsup : ∀ u, t.supervisor = some u → u.state = v'.state ∧ t.Custody u u.phase)
    (hcreated : t.created = s.created) (hstate : t.runState = some v'.state)
    (hworkers : ∀ w ∈ t.workers, w ∈ t.uncleaned) (howing : ∀ w ∈ t.uncleaned, v'.state.Owes w) : t.Sound where
  live := hworkers
  owed w hw := ⟨v'.state, hstate, howing w hw⟩
  begun _ := hcreated.trans (h.begun (.inl (by simp [hv])))
  owing u hu := by
    rw [(hsup u hu).1]
    exact howing
  held u hu := (hsup u hu).2

theorem Sound.terminate (h : s.Sound) (root : ℕ) : ∀ w ∈ (s.terminate root).workers, w ∈ s.uncleaned := by
  intro w hw
  exact h.live w (List.mem_filter.mp hw).1

theorem Sound.ends (h : s.Sound) (hsup : t.supervisor = none) (hcreated : t.created = s.created)
    (hstate : t.runState = s.runState) (hworkers : t.workers = s.workers) (huncleaned : t.uncleaned = s.uncleaned) :
    t.Sound where
  live := by rw [hworkers, huncleaned]; exact h.live
  owed := by rw [huncleaned, hstate]; exact h.owed
  begun := by
    rw [hsup, hstate, hcreated]
    intro hs
    exact h.begun (.inr (by simpa using hs))
  owing := by simp [hsup]
  held := by simp [hsup]

theorem stopWorker_keeps (s : State) (x : ArmState) :
    (stopWorker s x).created = s.created ∧ (stopWorker s x).runState = s.runState ∧
      (stopWorker s x).uncleaned = s.uncleaned := by
  unfold stopWorker
  cases x.worker with
  | none => exact ⟨rfl, rfl, rfl⟩
  | some root => exact ⟨rfl, rfl, rfl⟩

theorem mem_stopWorker {x : ArmState} {w : Worker} (h : w ∈ (stopWorker s x).workers) :
    w ∈ s.workers ∧ x.worker ≠ some w.root := by
  unfold stopWorker at h
  cases hx : x.worker with
  | none =>
    rw [hx] at h
    exact ⟨h, by simp⟩
  | some root =>
    rw [hx] at h
    obtain ⟨hmem, hne⟩ := List.mem_filter.mp h
    simp only [ne_eq, decide_not, Bool.not_eq_eq_eq_not, Bool.not_true, decide_eq_false_iff_not] at hne
    exact ⟨hmem, by simpa using Ne.symm hne⟩

theorem Sound.recoverArm (h : s.Sound) (hv : s.supervisor = some v) {a : ℕ} {left failures : List ℕ}
    (hphase : v.phase = .recovering (a :: left) failures) : (recoverArm s v a left failures).Sound := by
  have hheld := h.held v hv
  rw [hphase] at hheld
  obtain ⟨hworkers, hunclean⟩ := hheld
  have howing := h.owing v hv
  unfold Supervisor.recoverArm
  cases hx : v.state.arms.get? a with
  | none =>
    refine h.proceeds hv rfl rfl rfl h.live (fun w hw => hw) howing ⟨?_, ?_⟩
    · intro w hw
      obtain ⟨hm, x, hget, hname⟩ := hworkers w hw
      refine ⟨(List.mem_cons.mp hm).resolve_left ?_, x, hget, hname⟩
      intro ha
      rw [ha, hx] at hget
      cases hget
    · intro w hw
      rcases hunclean w hw with hm | hf
      · refine .inl ((List.mem_cons.mp hm).resolve_left ?_)
        intro ha
        obtain ⟨x, hget, -⟩ := howing w hw
        rw [ha, hx] at hget
        cases hget
      · exact .inr hf
  | some x =>
    dsimp only
    have hdead : ∀ w ∈ (stopWorker s x).workers,
        w ∈ s.workers ∧ w.armId ∈ left ∧ w.armId ≠ a ∧ v.state.Names w := by
      intro w hw
      obtain ⟨hmem, hstopped⟩ := mem_stopWorker hw
      obtain ⟨hm, y, hget, hname⟩ := hworkers w hmem
      have hne : w.armId ≠ a := by
        intro ha
        rw [ha, hx, Option.some.injEq] at hget
        exact hstopped (hget ▸ hname)
      exact ⟨hmem, (List.mem_cons.mp hm).resolve_left hne, hne, y, hget, hname⟩
    obtain ⟨hcreated, hstate, huncleaned⟩ := s.stopWorker_keeps x
    generalize stopWorker s x = u at hdead hcreated hstate huncleaned
    have hlive : ∀ w ∈ u.workers, w ∈ u.uncleaned := fun w hw => huncleaned ▸ h.live w (hdead w hw).1
    have howing' : ∀ w ∈ u.uncleaned, v.state.Owes w := huncleaned ▸ howing
    have hskip : x.cleanupVerified = true ∨ x.taskUid.isNone ∨ x.artifactRoot.isNone →
        (u.enter v (.recovering left failures)).Sound := by
      intro hdone
      refine h.proceeds hv rfl hcreated hstate hlive (fun w hw => huncleaned ▸ hw) howing' ⟨?_, ?_⟩
      · intro w hw
        obtain ⟨-, hleft, -, hnames⟩ := hdead w hw
        exact ⟨hleft, hnames⟩
      · intro w hw
        have hw : w ∈ s.uncleaned := huncleaned ▸ hw
        rcases hunclean w hw with hm | hf
        · refine .inl ((List.mem_cons.mp hm).resolve_left ?_)
          intro ha
          obtain ⟨y, hget, htask, hroot, hclean⟩ := howing w hw
          rw [ha, hx, Option.some.injEq] at hget
          subst hget
          simp [htask, hroot, hclean] at hdone
        · exact .inr hf
    split_ifs with hclean hmissing
    · exact hskip (.inl hclean)
    · exact hskip (.inr hmissing)
    · refine h.proceeds hv rfl hcreated hstate hlive (fun w hw => huncleaned ▸ hw) howing' ⟨?_, ?_⟩
      · intro w hw
        exact (hdead w hw).2
      · intro w hw
        rcases hunclean w (huncleaned ▸ hw) with hm | hf
        · exact (List.mem_cons.mp hm).imp_right .inl
        · exact .inr (.inr hf)

theorem verified_workers (s : State) (root : ℕ) (task : TaskUid) (ok : Bool) :
    (s.verified root task ok).workers = s.workers ∧ (s.verified root task ok).created = s.created ∧
      (s.verified root task ok).runState = s.runState := by
  unfold verified
  split_ifs
  · exact ⟨rfl, rfl, rfl⟩
  · exact ⟨rfl, rfl, rfl⟩

theorem mem_verified {root : ℕ} {task : TaskUid} {ok : Bool} {w : Worker}
    (h : w ∈ (s.verified root task ok).uncleaned) :
    w ∈ s.uncleaned ∧ (ok = true → w.root = root → w.task = task → w ∈ s.workers) := by
  unfold verified at h
  split_ifs at h with hok
  · simp only [List.mem_filter, decide_eq_true_eq] at h
    exact ⟨h.1, fun _ hr ht => h.2.resolve_left fun hn => hn ⟨hr, ht⟩⟩
  · exact ⟨h, fun hk => absurd hk hok⟩

theorem mem_verified_of_live (h : s.Sound) (root : ℕ) (task : TaskUid) (ok : Bool) {w : Worker} (hw : w ∈ s.workers) :
    w ∈ (s.verified root task ok).uncleaned := by
  unfold verified
  split_ifs
  · simp only [List.mem_filter, decide_eq_true_eq]
    exact ⟨h.live w hw, .inr hw⟩
  · exact h.live w hw

theorem Sound.reclaim (h : s.Sound) (hv : s.supervisor = some v) {a : ℕ} {left failures : List ℕ}
    (hphase : v.phase = .reclaiming a left failures) (ok : Bool) : (reclaim s v a left failures ok).Sound := by
  have hheld := h.held v hv
  rw [hphase] at hheld
  obtain ⟨hworkers, hunclean⟩ := hheld
  have howing := h.owing v hv
  unfold Supervisor.reclaim
  cases hx : v.state.arms.get? a with
  | none => exact h
  | some x =>
    dsimp only
    cases htask : x.taskUid with
    | none => exact h
    | some task =>
      cases hroot : x.artifactRoot with
      | none => exact h
      | some root =>
        obtain ⟨hw, hcreated, hstate⟩ := s.verified_workers root task ok
        -- a cleanup of the arm leaves nothing of it: its worker has ended
        have hother : ∀ w ∈ (s.verified root task ok).uncleaned, ok = true → w.armId ≠ a := by
          intro w hmem hok ha
          obtain ⟨hu, hlive⟩ := mem_verified hmem
          obtain ⟨y, hget, ht, hr, -⟩ := howing w hu
          rw [ha, hx, Option.some.injEq] at hget
          subst hget
          rw [htask, Option.some.injEq] at ht
          rw [hroot, Option.some.injEq] at hr
          exact (hworkers w (hlive hok hr.symm ht.symm)).2.1 ha
        refine h.proceeds hv rfl hcreated hstate ?_ (fun w hmem => (mem_verified hmem).1) ?_ ⟨?_, ?_⟩
        · intro w hmem
          exact mem_verified_of_live h root task ok (hw ▸ hmem)
        · intro w hmem
          refine (howing w (mem_verified hmem).1).updateArm fun y ha hclean => ⟨rfl, rfl, ?_⟩
          cases hok : ok with
          | false => rfl
          | true => exact absurd ha (hother w hmem hok)
        · intro w hmem
          obtain ⟨hleft, -, hnames⟩ := hworkers w (hw ▸ hmem)
          exact ⟨hleft, hnames.updateArm fun y => rfl⟩
        · intro w hmem
          cases hok : ok with
          | false => exact .inr (by simp)
          | true =>
            rcases hunclean w (mem_verified hmem).1 with ha | hleft | hf
            · exact absurd ha (hother w hmem hok)
            · exact .inl hleft
            · exact .inr hf

theorem Sound.choose (h : s.Sound) (hv : s.supervisor = some v) (hphase : v.phase = .choosing) :
    (choose cfg s v).1.Sound := by
  have hquiet := h.held v hv
  have howing := h.owing v hv
  rw [hphase] at hquiet
  unfold Supervisor.choose
  cases v.todo with
  | nil => exact h.proceeds hv rfl rfl rfl h.live (fun w hw => hw) howing hquiet.1
  | cons a rest =>
    dsimp only
    cases completedResult cfg s v.attemptId a with
    | none => exact h.proceeds hv rfl rfl rfl h.live (fun w hw => hw) howing hquiet
    | some r =>
      refine h.proceeds hv rfl rfl rfl h.live (fun w hw => hw) ?_ hquiet
      intro w hw
      exact (howing w hw).updateArm fun x _ hclean => ⟨rfl, rfl, hclean⟩

theorem owes_prepared {st : RunState} {v : Invocation} (root : ℕ) {x : ArmState} (hx : st.arms.get? v.armId = some x) :
    (st.updateArm v.armId (prepared v root)).Owes ⟨root, v.task⟩ := by
  refine ⟨prepared v root x, ?_, rfl, rfl, rfl⟩
  simp [Worker.armId, Invocation.task, hx]

theorem Sound.prepare (h : s.Sound) (hv : s.supervisor = some v) (hphase : v.phase = .preparing) :
    (prepare s v).Sound := by
  have hquiet := h.held v hv
  rw [hphase] at hquiet
  have hnone : ∀ {P : Worker → Prop}, ∀ w ∈ s.uncleaned, P w := by
    intro P w hw
    rw [hquiet.2] at hw
    cases hw
  unfold Supervisor.prepare
  cases hx : v.state.arms.get? v.armId with
  | none => exact h.writes hv (by simp) rfl rfl h.live (h.owing v hv)
  | some x =>
    refine h.writes hv ?_ rfl rfl h.live hnone
    intro u hu
    cases hu
    exact ⟨rfl, hquiet, owes_prepared s.minted hx, rfl⟩

theorem Sound.launch (h : s.Sound) (hv : s.supervisor = some v) (hphase : v.phase = .launching) :
    (launch s v).Sound := by
  have hheld := h.held v hv
  rw [hphase] at hheld
  obtain ⟨⟨hworkers, huncleaned⟩, howes, hstate⟩ := hheld
  have hown : ∀ w ∈ v.worker :: s.uncleaned, w = v.worker := by simp [huncleaned]
  refine ⟨?_, ?_, fun _ => h.begun (.inl (by simp [hv])), ?_, ?_⟩
  · intro w hw
    simpa [Supervisor.launch, enter, hworkers, huncleaned] using hw
  · intro w hw
    exact ⟨v.state, hstate, hown w hw ▸ howes⟩
  · intro u hu w hw
    cases hu
    exact hown w hw ▸ howes
  · intro u hu
    cases hu
    exact hown

theorem Sound.record (h : s.Sound) (hv : s.supervisor = some v) {r : Result} (hphase : v.phase = .recording r) :
    (record s v r).Sound := by
  have hheld := h.held v hv
  rw [hphase] at hheld
  obtain ⟨hworkers, hclean⟩ := hheld
  have howing : ∀ w ∈ s.uncleaned,
      (v.updateArm v.armId fun x => { x with status := .ended r.status }).state.Owes w := by
    intro w hw
    exact (h.owing v hv w hw).updateArm fun x _ hc => ⟨rfl, rfl, hc⟩
  refine h.writes hv ?_ rfl rfl h.live howing
  intro u hu
  cases hu
  refine ⟨rfl, ?_⟩
  dsimp only
  split_ifs with hr
  · exact ⟨hworkers, hclean hr⟩
  · exact hworkers

theorem owes_finish {st : RunState} {w : Worker} (h : st.Owes w) (arms : List ℕ) :
    (arms.foldl (fun st a => st.updateArm a notRun) st).Owes w := by
  induction arms generalizing st with
  | nil => exact h
  | cons a arms ih =>
    apply ih
    refine h.updateArm fun x _ hc => ?_
    unfold notRun
    split_ifs
    · exact ⟨rfl, rfl, hc⟩
    · exact ⟨rfl, rfl, hc⟩

theorem Sound.proceed (h : s.Sound) (hv : s.supervisor = some v) {e : Option Event}
    (hn : proceed cfg s v = some (t, e)) : t.Sound := by
  have hheld := h.held v hv
  have howing := h.owing v hv
  unfold Supervisor.proceed at hn
  cases hphase : v.phase with
  | recovering left failures =>
    rw [hphase] at hn hheld
    cases left with
    | nil =>
      cases hn
      refine h.proceeds hv rfl rfl rfl h.live (fun w hw => hw) howing ⟨?_, ?_⟩
      · exact List.eq_nil_iff_forall_not_mem.mpr fun w hw => by simpa using (hheld.1 w hw).1
      · by_cases hf : failures = []
        · exact .inl (List.eq_nil_iff_forall_not_mem.mpr fun w hw => by simpa [hf] using hheld.2 w hw)
        · exact .inr hf
    | cons a left =>
      cases hn
      exact h.recoverArm hv hphase
  | reclaiming a left failures =>
    rw [hphase] at hn
    cases hn
  | recovered failures =>
    rw [hphase] at hn hheld
    dsimp only at hn
    split_ifs at hn with hf
    · cases hn
      have hquiet : s.Quiet := ⟨hheld.1, hheld.2.resolve_right (not_not_intro hf)⟩
      refine ⟨h.live, fun w hw => ⟨v.state, rfl, howing w hw⟩, fun _ => h.begun (.inl (by simp [hv])), ?_, ?_⟩
      · intro u _ w hw
        have hw : w ∈ s.uncleaned := hw
        rw [hquiet.2] at hw
        cases hw
      · intro u hu
        cases hu
        exact hquiet
    · cases hn
      exact h.writes hv (by simp) rfl rfl h.live howing
  | initialized =>
    rw [hphase] at hn hheld
    cases hn
    refine h.writes hv ?_ rfl rfl h.live howing
    intro u hu
    cases hu
    exact ⟨rfl, hheld⟩
  | choosing =>
    rw [hphase] at hn
    obtain ⟨rfl, -⟩ := Prod.mk.inj (Option.some.inj hn)
    exact h.choose hv hphase
  | preparing =>
    rw [hphase] at hn
    cases hn
    exact h.prepare hv hphase
  | launching =>
    rw [hphase] at hn
    cases hn
    exact h.launch hv hphase
  | launched =>
    rw [hphase] at hn hheld
    cases hn
    refine h.proceeds hv rfl rfl rfl h.live (fun w hw => hw) ?_ hheld
    intro w hw
    exact (howing w hw).updateArm fun x _ hclean => ⟨rfl, rfl, hclean⟩
  | identified =>
    rw [hphase] at hn hheld
    cases hn
    refine h.writes hv ?_ rfl rfl h.live howing
    intro u hu
    cases hu
    exact ⟨rfl, hheld⟩
  | waiting =>
    rw [hphase] at hn hheld
    dsimp only at hn
    split_ifs at hn with hend
    cases hn
    refine h.writes hv ?_ rfl rfl h.live howing
    intro u hu
    cases hu
    refine ⟨rfl, ?_, hheld⟩
    refine List.eq_nil_iff_forall_not_mem.mpr fun w hw => hend ?_
    rw [← hheld w (h.live w hw)]
    exact hw
  | stopping keyboard =>
    rw [hphase] at hn
    cases hn
  | stopped =>
    rw [hphase] at hn
    cases hn
  | cleaning timedOut =>
    rw [hphase] at hn
    cases hn
  | settling timedOut cleaned =>
    rw [hphase] at hn
    cases hn
  | archiving r =>
    rw [hphase] at hn hheld
    cases hn
    unfold archivePrevious
    split
    · exact h.proceeds hv rfl rfl rfl h.live (fun w hw => hw) howing hheld
    · split_ifs
      · exact h.proceeds hv rfl rfl rfl h.live (fun w hw => hw) howing hheld
      · exact h.proceeds hv rfl rfl rfl h.live (fun w hw => hw) howing hheld
  | storing r =>
    rw [hphase] at hn hheld
    cases hn
    exact h.proceeds hv rfl rfl rfl h.live (fun w hw => hw) howing hheld
  | marking r =>
    rw [hphase] at hn hheld
    cases hn
    exact h.proceeds hv rfl rfl rfl h.live (fun w hw => hw) howing hheld
  | recording r =>
    rw [hphase] at hn
    cases hn
    exact h.record hv hphase
  | finishing =>
    rw [hphase] at hn
    cases hn
    exact h.writes hv (by simp [finish]) rfl rfl h.live fun w hw => owes_finish (howing w hw) cfg.arms

theorem Sound.cleanup (h : s.Sound) (hv : s.supervisor = some v) {ok : Bool} (hn : cleanup s v ok = some t) :
    t.Sound := by
  have hheld := h.held v hv
  have howing := h.owing v hv
  obtain ⟨hw, hcreated, hstate⟩ := s.verified_workers v.artifactRoot v.task ok
  -- after a cleanup that was verified nothing of the arm is left, as its worker has ended
  have hgone : s.workers = [] → (∀ w ∈ s.uncleaned, w = v.worker) → ok = true →
      (s.verified v.artifactRoot v.task ok).uncleaned = [] := by
    intro hworkers hown hok
    refine List.eq_nil_iff_forall_not_mem.mpr fun w hmem => ?_
    obtain ⟨hu, hlive⟩ := mem_verified hmem
    have hw := hlive hok (by rw [hown w hu]; rfl) (by rw [hown w hu]; rfl)
    rw [hworkers] at hw
    cases hw
  have howes : s.workers = [] → (∀ w ∈ s.uncleaned, w = v.worker) → ∀ f : ArmState → ArmState,
      (∀ x, (f x).taskUid = x.taskUid ∧ (f x).artifactRoot = x.artifactRoot ∧ (f x).cleanupVerified = ok) →
      ∀ w ∈ (s.verified v.artifactRoot v.task ok).uncleaned, (v.updateArm v.armId f).state.Owes w := by
    intro hworkers hown f hf w hmem
    cases hok : ok with
    | true =>
      rw [hgone hworkers hown hok] at hmem
      cases hmem
    | false =>
      refine (howing w (mem_verified hmem).1).updateArm fun x _ _ => ?_
      rw [← hok]
      exact hf x
  have hlive : ∀ w ∈ (s.verified v.artifactRoot v.task ok).workers,
      w ∈ (s.verified v.artifactRoot v.task ok).uncleaned := by
    intro w hmem
    exact mem_verified_of_live h _ _ ok (hw ▸ hmem)
  unfold Supervisor.cleanup at hn
  split at hn
  · cases hn
    exact h.reclaim hv ‹_› ok
  · next keyboard hphase =>
    cases hn
    rw [hphase] at hheld
    obtain ⟨hworkers, hown⟩ := hheld
    refine h.proceeds hv rfl hcreated hstate hlive (fun w hmem => (mem_verified hmem).1) ?_ (hw.trans hworkers)
    exact howes hworkers hown _ fun x => ⟨rfl, rfl, rfl⟩
  · next timedOut hphase =>
    cases hn
    rw [hphase] at hheld
    obtain ⟨hworkers, hown⟩ := hheld
    refine h.proceeds hv rfl hcreated hstate hlive (fun w hmem => (mem_verified hmem).1) ?_
      ⟨hw.trans hworkers, hgone hworkers hown⟩
    exact howes hworkers hown _ fun x => ⟨rfl, rfl, rfl⟩
  · cases hn

theorem Sound.stopped (h : s.Sound) (hv : s.supervisor = some v) (hphase : v.phase = .waiting) {p : Phase}
    (hp : ∀ u : State, u.Custody v p ↔ u.workers = [] ∧ ∀ w ∈ u.uncleaned, w = v.worker) :
    ((s.terminate v.artifactRoot).writeEnter v p).Sound := by
  have hown := h.held v hv
  rw [hphase] at hown
  refine h.writes hv ?_ rfl rfl (h.terminate v.artifactRoot) (h.owing v hv)
  intro u hu
  cases hu
  refine ⟨rfl, (hp _).mpr ⟨?_, hown⟩⟩
  refine List.eq_nil_iff_forall_not_mem.mpr fun w hw => ?_
  obtain ⟨hmem, hne⟩ := List.mem_filter.mp hw
  rw [hown w (h.live w hmem)] at hne
  simp [Invocation.worker] at hne

theorem custody_exits {p : Phase} (h : s.Custody v p) (root : ℕ) : (s.terminate root).Custody v p := by
  have hsub : ∀ {P : Worker → Prop}, (∀ w ∈ s.workers, P w) → ∀ w ∈ (s.terminate root).workers, P w := by
    intro P hP w hw
    exact hP w (List.mem_filter.mp hw).1
  have hnil : s.workers = [] → (s.terminate root).workers = [] := by
    intro hw
    simp [State.terminate, hw]
  cases p with
  | recovering left failures => exact ⟨hsub h.1, h.2⟩
  | reclaiming a left failures => exact ⟨hsub h.1, h.2⟩
  | launching => exact ⟨⟨hnil h.1.1, h.1.2⟩, h.2⟩
  | launched => exact h
  | identified => exact h
  | waiting => exact h
  | stopped => exact hnil h
  | finishing => exact hnil h
  | recovered failures => exact ⟨hnil h.1, h.2⟩
  | initialized => exact ⟨hnil h.1, h.2⟩
  | choosing => exact ⟨hnil h.1, h.2⟩
  | preparing => exact ⟨hnil h.1, h.2⟩
  | stopping keyboard => exact ⟨hnil h.1, h.2⟩
  | cleaning timedOut => exact ⟨hnil h.1, h.2⟩
  | settling timedOut cleaned => exact ⟨hnil h.1, h.2⟩
  | archiving r => exact ⟨hnil h.1, h.2⟩
  | storing r => exact ⟨hnil h.1, h.2⟩
  | marking r => exact ⟨hnil h.1, h.2⟩
  | recording r => exact ⟨hnil h.1, h.2⟩

theorem Sound.exits (h : s.Sound) (root : ℕ) : (s.terminate root).Sound :=
  ⟨h.terminate root, h.owed, h.begun, h.owing, fun v hv => custody_exits (h.held v hv) root⟩

def recorded (s : State) : Bool :=
  s.workers.all fun w =>
    s.runState.any fun st => (st.arms.get? w.armId).any fun x => x.worker = some w.root

theorem names_of_recorded (h : s.recorded = true) {st : RunState} (hst : s.runState = some st) {w : Worker}
    (hw : w ∈ s.workers) : st.Names w := by
  have hany := List.all_eq_true.mp h w hw
  rw [hst] at hany
  cases hx : st.arms.get? w.armId with
  | none => simp [hx] at hany
  | some x => exact ⟨x, hx, by simpa [hx] using hany⟩

theorem Sound.next (h : s.Sound) {a : Act} {e : Option Event} (hn : next cfg s a = some (t, e))
    (hok : ∀ attempt, a = .resume attempt → s.recorded = true) : t.Sound := by
  cases a with
  | run attempt =>
    simp only [Supervisor.next] at hn
    split_ifs at hn with hc
    cases hn
    have hrun : s.runState = none := by
      by_contra hr
      exact hc (.inl (h.begun (.inr (Option.isSome_iff_ne_none.mpr hr))))
    have huncleaned : s.uncleaned = [] := by
      refine List.eq_nil_iff_forall_not_mem.mpr fun w hw => ?_
      obtain ⟨st, hst, -⟩ := h.owed w hw
      rw [hrun] at hst
      cases hst
    have hworkers : s.workers = [] := by
      refine List.eq_nil_iff_forall_not_mem.mpr fun w hw => ?_
      have hm := h.live w hw
      rw [huncleaned] at hm
      cases hm
    refine ⟨h.live, h.owed, fun _ => rfl, ?_, ?_⟩
    · intro u _ w hw
      have hw : w ∈ s.uncleaned := hw
      rw [huncleaned] at hw
      cases hw
    · intro u hu
      cases hu
      exact ⟨hworkers, huncleaned⟩
  | resume attempt =>
    simp only [Supervisor.next] at hn
    cases hsup : s.supervisor with
    | some v => simp [hsup] at hn
    | none =>
      cases hst : s.runState with
      | none => simp [hsup, hst] at hn
      | some st =>
        rw [hsup, hst] at hn
        cases hn
        have howes : ∀ w ∈ s.uncleaned, st.Owes w := by
          intro w hw
          obtain ⟨st', hst', ho⟩ := h.owed w hw
          rw [hst, Option.some.injEq] at hst'
          exact hst' ▸ ho
        have hkey : ∀ w ∈ s.uncleaned, w.armId ∈ st.arms.keys := by
          intro w hw
          obtain ⟨x, hx, -⟩ := howes w hw
          by_contra hk
          rw [PyDict.get?_eq_none.mpr hk] at hx
          cases hx
        refine ⟨h.live, fun w hw => ⟨st, rfl, howes w hw⟩, fun _ => h.begun (.inr (by simp [hst])), ?_, ?_⟩
        · intro u hu
          cases hu
          exact howes
        · intro u hu
          cases hu
          refine ⟨fun w hw => ⟨hkey w (h.live w hw), ?_⟩, fun w hw => .inl (hkey w hw)⟩
          exact names_of_recorded (hok attempt rfl) hst hw
  | proceed =>
    obtain ⟨v, hv, hp⟩ := Option.bind_eq_some_iff.mp hn
    exact h.proceed hv hp
  | cleanup ok =>
    obtain ⟨v, hv, hp⟩ := Option.bind_eq_some_iff.mp hn
    obtain ⟨u, hu, he⟩ := Option.map_eq_some_iff.mp hp
    cases he
    exact h.cleanup hv hu
  | settle candidate badExit =>
    obtain ⟨v, hv, hp⟩ := Option.bind_eq_some_iff.mp hn
    split at hp
    · next timedOut cleaned hphase =>
      split_ifs at hp
      cases hp
      have hheld := h.held v hv
      rw [hphase] at hheld
      refine h.proceeds hv rfl rfl rfl h.live (fun w hw => hw) (h.owing v hv) ⟨hheld.1, fun hr => hheld.2 ?_⟩
      exact (settled_cleanup ..).symm.trans (cleanup_of_outcome hr)
    · cases hp
  | timeout =>
    obtain ⟨v, hv, hp⟩ := Option.bind_eq_some_iff.mp hn
    split_ifs at hp with hphase
    cases hp
    exact h.stopped hv hphase fun u => Iff.rfl
  | interrupt keyboard =>
    obtain ⟨v, hv, hp⟩ := Option.bind_eq_some_iff.mp hn
    split_ifs at hp with hphase
    cases hp
    exact h.stopped hv hphase fun u => Iff.rfl
  | leave written =>
    obtain ⟨v, hv, hp⟩ := Option.bind_eq_some_iff.mp hn
    split_ifs at hp with hphase hw
    · cases hp
      exact h.writes hv (by simp) rfl rfl h.live (h.owing v hv)
    · cases hp
      exact h.ends rfl rfl rfl rfl rfl
  | kill =>
    obtain ⟨v, hv, hp⟩ := Option.map_eq_some_iff.mp hn
    cases hp
    exact h.ends rfl rfl rfl rfl rfl
  | workerExits root =>
    cases hn
    exact h.exits root

end State

end ClawBox.Supervisor
