import ClawBox.Supervisor.Recovery

namespace ClawBox.Supervisor

open Transition

variable {cfg : Config} {s t : State} {v : Invocation}

def counts (cfg : Config) (attempt a : ℕ) (r : Result) : Bool :=
  isTrialOutcome r ∧ r.attemptId = attempt ∧ r.armId = a ∧ r.specDigest = cfg.specDigest

namespace State

def Settled (cfg : Config) (s : State) (attempt a : ℕ) : Prop := ∃ r ∈ s.history, counts cfg attempt a r = true

def latest (s : State) (attempt a : ℕ) : Option Result :=
  s.history.find? fun r => r.attemptId = attempt ∧ r.armId = a

structure Filed (s : State) : Prop where
  current : ∀ a r, s.results.get? a = some r → s.latest r.attemptId a = some r
  kept : ∀ attempt a r, s.latest attempt a = some r →
    s.results.get? a = some r ∨ s.archive.get? (attempt, a) = some r
  archived : ∀ v r, s.supervisor = some v → v.phase = .storing r → ∀ p, s.results.get? r.armId = some p →
    p.attemptId ≠ r.attemptId → s.archive.get? (p.attemptId, r.armId) = some p

inductive Files (s t : State) : Prop
  | same (results : t.results = s.results) (markers : t.markers = s.markers) (archive : t.archive = s.archive)
      (history : t.history = s.history) (created : s.created = true → t.created = true)
      (phase : ∀ v r, t.supervisor = some v → v.phase = .storing r → s.supervisor = some v)
  | archived (v : Invocation) (r : Result) (hv : s.supervisor = some v) (phase : v.phase = .archiving r)
      (eq : t = (archivePrevious s r).enter v (.storing r))
  | stored (v : Invocation) (r : Result) (hv : s.supervisor = some v) (phase : v.phase = .storing r)
      (eq : t = { s with results := s.results.set r.armId r, history := r :: s.history }.enter v (.marking r))
  | marked (v : Invocation) (r : Result) (hv : s.supervisor = some v) (phase : v.phase = .marking r)
      (eq : t = (mark s r).enter v (.recording r))

theorem files_stopWorker (s : State) (x : ArmState) (v : Invocation) (p : Phase)
    (hp : ∀ r, p ≠ .storing r) : s.Files ((stopWorker s x).enter v p) := by
  have hphase : ∀ (u : Invocation) (r : Result), some { v with phase := p } = some u → u.phase = .storing r →
      s.supervisor = some u := by
    rintro _ r ⟨⟩ hr
    exact absurd hr (hp r)
  unfold stopWorker
  cases x.worker with
  | none => exact .same rfl rfl rfl rfl id hphase
  | some root => exact .same rfl rfl rfl rfl id hphase

theorem Files.of_proceed (hv : s.supervisor = some v) {e : Option Event} (hn : proceed cfg s v = some (t, e)) :
    s.Files t := by
  unfold proceed at hn
  split at hn
  · cases hn
    exact .same rfl rfl rfl rfl id (by rintro _ _ ⟨⟩ ⟨⟩)
  · next a left failures _ =>
    cases hn
    unfold recoverArm
    split
    · exact .same rfl rfl rfl rfl id (by rintro _ _ ⟨⟩ ⟨⟩)
    · split_ifs <;> exact files_stopWorker _ _ _ _ (by simp)
  · split_ifs at hn <;> cases hn <;> exact .same rfl rfl rfl rfl id (by rintro _ _ ⟨⟩ ⟨⟩)
  · cases hn
    exact .same rfl rfl rfl rfl id (by rintro _ _ ⟨⟩ ⟨⟩)
  · obtain ⟨rfl, -⟩ := Prod.mk.inj (Option.some.inj hn)
    split
    · exact .same rfl rfl rfl rfl id (by rintro _ _ ⟨⟩ ⟨⟩)
    · split <;> exact .same rfl rfl rfl rfl id (by rintro _ _ ⟨⟩ ⟨⟩)
  · cases hn
    unfold prepare
    split <;> exact .same rfl rfl rfl rfl id (by rintro _ _ ⟨⟩ ⟨⟩)
  · cases hn
    exact .same rfl rfl rfl rfl id (by rintro _ _ ⟨⟩ ⟨⟩)
  · cases hn
    exact .same rfl rfl rfl rfl id (by rintro _ _ ⟨⟩ ⟨⟩)
  · cases hn
    exact .same rfl rfl rfl rfl id (by rintro _ _ ⟨⟩ ⟨⟩)
  · split_ifs at hn
    cases hn
    exact .same rfl rfl rfl rfl id (by rintro _ _ ⟨⟩ ⟨⟩)
  · next r hphase =>
    cases hn
    exact .archived v r hv hphase rfl
  · next r hphase =>
    cases hn
    exact .stored v r hv hphase rfl
  · next r hphase =>
    cases hn
    exact .marked v r hv hphase rfl
  · cases hn
    refine .same rfl rfl rfl rfl id ?_
    rintro _ _ ⟨⟩ hphase
    dsimp only at hphase
    split_ifs at hphase
  · cases hn
    exact .same rfl rfl rfl rfl id (by rintro _ _ ⟨⟩ ⟨⟩)
  · cases hn

theorem files_verified (s : State) (root : ℕ) (task : TaskUid) (ok : Bool) (v : Invocation) (p : Phase)
    (hp : ∀ r, p ≠ .storing r) : s.Files ((s.verified root task ok).enter v p) := by
  have hphase : ∀ (u : Invocation) (r : Result), some { v with phase := p } = some u → u.phase = .storing r →
      s.supervisor = some u := by
    rintro _ r ⟨⟩ hr
    exact absurd hr (hp r)
  unfold verified
  split_ifs
  · exact .same rfl rfl rfl rfl id hphase
  · exact .same rfl rfl rfl rfl id hphase

theorem Files.of_next {a : Act} {e : Option Event} (hn : next cfg s a = some (t, e)) : s.Files t := by
  cases a with
  | run attempt =>
    simp only [Supervisor.next] at hn
    split_ifs at hn
    cases hn
    exact .same rfl rfl rfl rfl (fun _ => rfl) (by rintro _ _ ⟨⟩ ⟨⟩)
  | resume attempt =>
    simp only [Supervisor.next] at hn
    split at hn
    · cases hn
      exact .same rfl rfl rfl rfl id (by rintro _ _ ⟨⟩ ⟨⟩)
    · cases hn
  | proceed =>
    obtain ⟨v, hv, hp⟩ := Option.bind_eq_some_iff.mp hn
    exact .of_proceed hv hp
  | cleanup ok =>
    obtain ⟨v, hv, hp⟩ := Option.bind_eq_some_iff.mp hn
    obtain ⟨u, hu, he⟩ := Option.map_eq_some_iff.mp hp
    cases he
    unfold Supervisor.cleanup at hu
    split at hu
    · cases hu
      unfold reclaim
      split
      · exact .same rfl rfl rfl rfl id fun _ _ hv _ => hv
      · split
        · exact files_verified _ _ _ _ _ _ (by simp)
        · exact .same rfl rfl rfl rfl id fun _ _ hv _ => hv
    · cases hu
      exact files_verified _ _ _ _ _ _ (by simp)
    · cases hu
      exact files_verified _ _ _ _ _ _ (by simp)
    · cases hu
  | settle candidate badExit =>
    obtain ⟨v, hv, hp⟩ := Option.bind_eq_some_iff.mp hn
    split at hp
    · split_ifs at hp
      cases hp
      exact .same rfl rfl rfl rfl id (by rintro _ _ ⟨⟩ ⟨⟩)
    · cases hp
  | timeout =>
    obtain ⟨v, hv, hp⟩ := Option.bind_eq_some_iff.mp hn
    split_ifs at hp
    cases hp
    exact .same rfl rfl rfl rfl id (by rintro _ _ ⟨⟩ ⟨⟩)
  | interrupt keyboard =>
    obtain ⟨v, hv, hp⟩ := Option.bind_eq_some_iff.mp hn
    split_ifs at hp
    cases hp
    exact .same rfl rfl rfl rfl id (by rintro _ _ ⟨⟩ ⟨⟩)
  | leave written =>
    obtain ⟨v, hv, hp⟩ := Option.bind_eq_some_iff.mp hn
    split_ifs at hp
    · cases hp
      exact .same rfl rfl rfl rfl id (by rintro _ _ ⟨⟩ ⟨⟩)
    · cases hp
      exact .same rfl rfl rfl rfl id (by rintro _ _ ⟨⟩ ⟨⟩)
  | kill =>
    obtain ⟨v, hv, hp⟩ := Option.map_eq_some_iff.mp hn
    cases hp
    exact .same rfl rfl rfl rfl id (by rintro _ _ ⟨⟩ ⟨⟩)
  | workerExits root =>
    cases hn
    exact .same rfl rfl rfl rfl id fun _ _ hv _ => hv

theorem latest_cons (s : State) (r : Result) (attempt a : ℕ) (d : PyDict ℕ Result) (u : Option Invocation) :
    ({ s with results := d, history := r :: s.history, supervisor := u } : State).latest attempt a =
      if r.attemptId = attempt ∧ r.armId = a then some r else s.latest attempt a := by
  unfold latest
  rw [List.find?_cons]
  by_cases h : r.attemptId = attempt ∧ r.armId = a
  · simp [h]
  · simp [h]

theorem archivePrevious_keeps (s : State) (r : Result) :
    (archivePrevious s r).results = s.results ∧ (archivePrevious s r).history = s.history ∧
      (archivePrevious s r).markers = s.markers ∧ (archivePrevious s r).created = s.created := by
  unfold archivePrevious
  split
  · exact ⟨rfl, rfl, rfl, rfl⟩
  · split_ifs
    · exact ⟨rfl, rfl, rfl, rfl⟩
    · exact ⟨rfl, rfl, rfl, rfl⟩

theorem archivePrevious_archives {r p : Result} (hp : s.results.get? r.armId = some p)
    (hne : p.attemptId ≠ r.attemptId) : (archivePrevious s r).archive.get? (p.attemptId, r.armId) = some p := by
  simp [archivePrevious, hp, hne]

theorem Filed.after_archive (h : s.Filed) (r : Result) (attempt a : ℕ) {x : Result}
    (hx : s.latest attempt a = some x) :
    s.results.get? a = some x ∨ (archivePrevious s r).archive.get? (attempt, a) = some x := by
  rcases h.kept attempt a x hx with hr | ha
  · exact .inl hr
  · unfold Supervisor.archivePrevious
    cases hp : s.results.get? r.armId with
    | none => exact .inr ha
    | some previous =>
      dsimp only
      split_ifs with hsame
      · exact .inr ha
      · by_cases hk : (attempt, a) = (previous.attemptId, r.armId)
        · obtain ⟨rfl, rfl⟩ := Prod.mk.inj hk
          rw [h.current r.armId previous hp, Option.some.injEq] at hx
          exact .inl (hx ▸ hp)
        · exact .inr ((PyDict.get?_set_ne _ _ hk).trans ha)

theorem Filed.start : Filed {} where
  current := by simp
  kept := by simp [latest]
  archived := by simp

theorem Filed.files (h : s.Filed) (hf : s.Files t) : t.Filed := by
  cases hf with
  | same results markers archive history created phase =>
    have hlatest : ∀ attempt a, t.latest attempt a = s.latest attempt a := by
      intro attempt a
      simp only [latest, history]
    refine ⟨?_, ?_, ?_⟩
    · intro a r hr
      rw [hlatest]
      exact h.current a r (results ▸ hr)
    · intro attempt a r hr
      rw [results, archive]
      exact h.kept attempt a r (hlatest attempt a ▸ hr)
    · intro v r hv hphase
      rw [results, archive]
      exact h.archived v r (phase v r hv hphase) hphase
  | archived v r hv phase eq =>
    subst eq
    obtain ⟨hresults, hhistory, -⟩ := archivePrevious_keeps s r
    have hlatest : ∀ attempt a, ((archivePrevious s r).enter v (.storing r)).latest attempt a = s.latest attempt a := by
      intro attempt a
      simp only [latest, enter, hhistory]
    refine ⟨?_, ?_, ?_⟩
    · intro a x hx
      rw [hlatest]
      exact h.current a x (hresults ▸ hx)
    · intro attempt a x hx
      rw [hlatest] at hx
      rw [show ((archivePrevious s r).enter v (.storing r)).results = s.results from hresults]
      exact h.after_archive r attempt a hx
    · rintro u q ⟨⟩ ⟨⟩ p hp hne
      exact archivePrevious_archives (hresults ▸ hp) hne
  | stored v r hv phase eq =>
    subst eq
    refine ⟨?_, ?_, ?_⟩
    · intro a x hx
      refine (latest_cons ..).trans ?_
      have hx : (s.results.set r.armId r).get? a = some x := hx
      rw [PyDict.get?_set] at hx
      split_ifs at hx with ha
      · cases hx
        simp [ha]
      · rw [if_neg (fun hc => ha hc.2.symm)]
        exact h.current a x hx
    · intro attempt a x hx
      have hx := (latest_cons ..).symm.trans hx
      have hget : ∀ y, (s.results.set r.armId r).get? a = y ↔
          (if a = r.armId then some r else s.results.get? a) = y := by
        intro y
        rw [PyDict.get?_set]
      split_ifs at hx with hk
      · cases hx
        exact .inl ((hget _).mpr (if_pos hk.2.symm))
      · by_cases ha : a = r.armId
        · rcases h.kept attempt a x hx with hr | hd
          · -- the result that is replaced belongs to another attempt, where it was archived
            have hne : attempt ≠ r.attemptId := fun hc => hk ⟨hc.symm, ha.symm⟩
            have hcur : x.attemptId = attempt := by
              have hfound := List.find?_some hx
              simp only [Bool.decide_and, Bool.and_eq_true, decide_eq_true_eq] at hfound
              exact hfound.1
            right
            rw [← hcur, ha]
            exact h.archived v r hv phase x (ha ▸ hr) (hcur ▸ hne)
          · exact .inr hd
        · rcases h.kept attempt a x hx with hr | hd
          · exact .inl ((hget _).mpr ((if_neg ha).trans hr))
          · exact .inr hd
    · rintro u q ⟨⟩ ⟨⟩
  | marked v r hv phase eq =>
    subst eq
    exact ⟨h.current, h.kept, by rintro u q ⟨⟩ ⟨⟩⟩

def Ready (cfg : Config) (s : State) (attempt : ℕ) (arms : List ℕ) : Prop :=
  ∀ a ∈ arms, s.Settled cfg attempt a → (completedResult cfg s attempt a).isSome

def Open (cfg : Config) (s : State) (v : Invocation) : Prop :=
  ¬s.Settled cfg v.attemptId v.armId ∧ s.Ready cfg v.attemptId v.todo

def Of (cfg : Config) (v : Invocation) (r : Result) : Prop :=
  r.attemptId = v.attemptId ∧ r.armId = v.armId ∧ r.specDigest = cfg.specDigest

def Pending (cfg : Config) (s : State) (v : Invocation) : Phase → Prop
  | .recovering _ _ | .reclaiming _ _ _ | .recovered _ | .initialized => s.Ready cfg v.attemptId cfg.arms
  | .choosing => s.Ready cfg v.attemptId v.todo
  | .preparing | .launching | .launched | .identified | .waiting | .cleaning _ | .settling _ _ => s.Open cfg v
  | .archiving r | .storing r => s.Open cfg v ∧ Of cfg v r
  | .marking r =>
    s.results.get? v.armId = some r ∧ Of cfg v r ∧
      ∀ a ∈ v.todo, a ≠ v.armId → s.Settled cfg v.attemptId a → (completedResult cfg s v.attemptId a).isSome
  | .recording r => isTrialOutcome r = true → s.Ready cfg v.attemptId v.todo
  | .stopping _ | .stopped | .finishing => True

theorem pending_congr {p : Phase} (hresults : t.results = s.results) (hmarkers : t.markers = s.markers)
    (hhistory : t.history = s.history) : t.Pending cfg v p ↔ s.Pending cfg v p := by
  have hsettled : ∀ attempt a, t.Settled cfg attempt a ↔ s.Settled cfg attempt a := by
    intro attempt a
    simp only [Settled, hhistory]
  have hcompleted : ∀ attempt a, completedResult cfg t attempt a = completedResult cfg s attempt a := by
    intro attempt a
    simp only [completedResult, hresults, hmarkers]
  cases p <;> simp only [Pending, Open, Ready, hsettled, hcompleted, hresults]

structure Standing (cfg : Config) (s : State) : Prop where
  filed : s.Filed
  fresh : s.created = false → s.history = []
  final : ∀ attempt a, s.Settled cfg attempt a → ∃ r, s.latest attempt a = some r ∧ counts cfg attempt a r = true
  pending : ∀ v, s.supervisor = some v → s.Pending cfg v v.phase

theorem Standing.start : Standing cfg {} where
  filed := .start
  fresh _ := rfl
  final := by simp [Settled]
  pending := by simp

theorem counts_iff {attempt a : ℕ} {r : Result} : counts cfg attempt a r = true ↔
    isTrialOutcome r = true ∧ r.attemptId = attempt ∧ r.armId = a ∧ r.specDigest = cfg.specDigest := by
  simp [counts]

theorem completed_of_marker {attempt a : ℕ} {r : Result} (hr : s.results.get? a = some r)
    (hm : s.markers.get? a = some cfg.specDigest) (hc : counts cfg attempt a r = true) :
    completedResult cfg s attempt a = some r := by
  obtain ⟨h₁, h₂, h₃, h₄⟩ := counts_iff.mp hc
  simp [completedResult, hr, hm, h₁, h₂, h₃, h₄, cleanup_of_outcome h₁]

theorem completed_spec {attempt a : ℕ} {r : Result} (h : completedResult cfg s attempt a = some r) :
    counts cfg attempt a r = true ∧ r.correctness.cleanupVerified = true ∧ s.results.get? a = some r := by
  unfold completedResult at h
  split at h
  · next q marker hq hm =>
    split_ifs at h with hc
    cases h
    exact ⟨counts_iff.mpr ⟨hc.1, hc.2.1, hc.2.2.1, hc.2.2.2.1⟩, hc.2.2.2.2.2, hq⟩
  · cases h

theorem completed_ne {attempt a : ℕ} (hr : t.results.get? a = s.results.get? a)
    (hm : t.markers.get? a = s.markers.get? a) :
    completedResult cfg t attempt a = completedResult cfg s attempt a := by
  simp only [completedResult, hr, hm]

theorem pending_marked (r : Result) (h : s.Pending cfg v (.marking r)) :
    ((mark s r).enter v (.recording r)).Pending cfg v (.recording r) := by
  obtain ⟨hget, ⟨hattempt, harm, hdigest⟩, hrest⟩ := h
  intro hr a ha hsettled
  by_cases hne : a = v.armId
  · subst hne
    have hmarker : ((mark s r).enter v (.recording r)).markers.get? v.armId = some cfg.specDigest := by
      simp [mark, enter, hr, harm, hdigest]
    have hfound := completed_of_marker (s := (mark s r).enter v (.recording r)) hget hmarker
      (counts_iff.mpr ⟨hr, hattempt, harm, hdigest⟩)
    rw [hfound]
    rfl
  · have hkeep : completedResult cfg ((mark s r).enter v (.recording r)) v.attemptId a =
        completedResult cfg s v.attemptId a := by
      refine completed_ne rfl ?_
      simp only [mark, enter, if_pos hr]
      exact PyDict.get?_set_ne _ _ (harm ▸ hne)
    rw [hkeep]
    exact hrest a ha hne hsettled

theorem settled_cons {r : Result} {attempt a : ℕ} {d : PyDict ℕ Result} {u : Option Invocation}
    (h : ({ s with results := d, history := r :: s.history, supervisor := u } : State).Settled cfg attempt a) :
    counts cfg attempt a r = true ∨ s.Settled cfg attempt a := by
  obtain ⟨q, hq, hc⟩ := h
  rcases List.mem_cons.mp hq with rfl | hq
  · exact .inl hc
  · exact .inr ⟨q, hq, hc⟩

theorem pending_stored (r : Result) (h : s.Pending cfg v (.storing r)) :
    ({ s with results := s.results.set r.armId r, history := r :: s.history }.enter v (.marking r)).Pending cfg v
      (.marking r) := by
  obtain ⟨⟨-, hready⟩, hattempt, harm, hdigest⟩ := h
  refine ⟨?_, ⟨hattempt, harm, hdigest⟩, ?_⟩
  · rw [← harm]
    exact PyDict.get?_set_self ..
  · intro a ha hne hsettled
    rcases settled_cons hsettled with hc | hs
    · exact absurd ((counts_iff.mp hc).2.2.1.symm.trans harm) hne
    · have hkeep : completedResult cfg
          ({ s with results := s.results.set r.armId r, history := r :: s.history }.enter v (.marking r)) v.attemptId
          a =
          completedResult cfg s v.attemptId a := completed_ne (PyDict.get?_set_ne _ _ (harm ▸ hne)) rfl
      rw [hkeep]
      exact hready a ha hs

theorem Standing.proceed (h : s.Standing cfg) (hv : s.supervisor = some v) {e : Option Event}
    (hn : proceed cfg s v = some (t, e)) {u : Invocation} (hu : t.supervisor = some u) : t.Pending cfg u u.phase := by
  have hp := h.pending v hv
  unfold Supervisor.proceed at hn
  cases hphase : v.phase with
  | recovering left failures =>
    rw [hphase] at hn hp
    cases left with
    | nil =>
      cases hn
      cases hu
      exact hp
    | cons a left =>
      cases hn
      unfold recoverArm stopWorker at hu ⊢
      cases hx : v.state.arms.get? a with
      | none =>
        rw [hx] at hu
        cases hu
        exact hp
      | some x =>
        rw [hx] at hu
        dsimp only at hu ⊢
        cases x.worker with
        | none =>
          dsimp only at hu ⊢
          split_ifs at hu ⊢ <;> (cases hu; exact hp)
        | some root =>
          dsimp only at hu ⊢
          split_ifs at hu ⊢ <;> (cases hu; exact hp)
  | reclaiming a left failures =>
    rw [hphase] at hn
    cases hn
  | recovered failures =>
    rw [hphase] at hn hp
    dsimp only at hn
    split_ifs at hn with hf
    · cases hn
      cases hu
      exact hp
    · cases hn
      cases hu
  | initialized =>
    rw [hphase] at hn hp
    cases hn
    cases hu
    exact hp
  | choosing =>
    rw [hphase] at hn hp
    obtain ⟨rfl, -⟩ := Prod.mk.inj (Option.some.inj hn)
    have hp : s.Ready cfg v.attemptId v.todo := hp
    cases htodo : v.todo with
    | nil =>
      simp only [htodo] at hu ⊢
      cases hu
      trivial
    | cons a rest =>
      rw [htodo] at hp
      have hrest : s.Ready cfg v.attemptId rest := fun b hb => hp b (List.mem_cons_of_mem _ hb)
      cases hc : completedResult cfg s v.attemptId a with
      | some r =>
        simp only [htodo, hc] at hu ⊢
        cases hu
        exact hrest
      | none =>
        simp only [htodo, hc] at hu ⊢
        cases hu
        refine ⟨fun hs => ?_, hrest⟩
        have hfound := hp a List.mem_cons_self hs
        rw [hc] at hfound
        cases hfound
  | preparing =>
    rw [hphase] at hn hp
    cases hn
    unfold prepare at hu ⊢
    cases hx : v.state.arms.get? v.armId with
    | none =>
      rw [hx] at hu
      cases hu
    | some x =>
      rw [hx] at hu
      cases hu
      exact hp
  | launching =>
    rw [hphase] at hn hp
    cases hn
    cases hu
    exact hp
  | launched =>
    rw [hphase] at hn hp
    cases hn
    cases hu
    exact hp
  | identified =>
    rw [hphase] at hn hp
    cases hn
    cases hu
    exact hp
  | waiting =>
    rw [hphase] at hn hp
    dsimp only at hn
    split_ifs at hn
    cases hn
    cases hu
    exact hp
  | stopping keyboard =>
    rw [hphase] at hn
    cases hn
  | stopped =>
    rw [hphase] at hn
    cases hn
  | cleaning timedOut =>
    rw [hphase] at hn
    cases hn
  | settling timedOut cleaned =>
    rw [hphase] at hn
    cases hn
  | archiving r =>
    rw [hphase] at hn hp
    cases hn
    cases hu
    obtain ⟨hresults, hhistory, hmarkers, -⟩ := archivePrevious_keeps s r
    exact (pending_congr (s := s) hresults hmarkers hhistory).mpr hp
  | storing r =>
    rw [hphase] at hn hp
    cases hn
    cases hu
    exact pending_stored r hp
  | marking r =>
    rw [hphase] at hn hp
    cases hn
    cases hu
    exact pending_marked r hp
  | recording r =>
    rw [hphase] at hn hp
    cases hn
    cases hu
    dsimp only
    split_ifs with hr
    · exact hp hr
    · trivial
  | finishing =>
    rw [hphase] at hn
    cases hn
    cases hu

def found (cfg : Config) (s : State) (attempt : ℕ) : Bool :=
  cfg.arms.all fun a =>
    (s.results.get? a).all (fun r => !counts cfg attempt a r || s.markers.get? a = some cfg.specDigest) &&
      (s.archive.get? (attempt, a)).all fun r =>
        !counts cfg attempt a r || (s.results.get? a).any (·.attemptId = attempt)

theorem Standing.ready (h : s.Standing cfg) {attempt : ℕ} (hfound : found cfg s attempt = true) :
    s.Ready cfg attempt cfg.arms := by
  intro a ha hs
  obtain ⟨r, hlatest, hc⟩ := h.final attempt a hs
  have hall := List.all_eq_true.mp hfound a ha
  rw [Bool.and_eq_true] at hall
  have hget : s.results.get? a = some r := by
    rcases h.filed.kept attempt a r hlatest with hr | hd
    · exact hr
    · have hany := hall.2
      rw [hd] at hany
      cases hq : s.results.get? a with
      | none => simp [hq, hc] at hany
      | some q =>
        have hq' : q.attemptId = attempt := by simpa [hq, hc] using hany
        have hcur := h.filed.current a q hq
        rw [hq', hlatest] at hcur
        exact hcur.symm
  have hmarker : s.markers.get? a = some cfg.specDigest := by
    have hm := hall.1
    rw [hget] at hm
    simpa [hc] using hm
  rw [completed_of_marker hget hmarker hc]
  rfl

theorem Standing.final_files (h : s.Standing cfg) (hf : s.Files t) (attempt a : ℕ) (hs : t.Settled cfg attempt a) :
    ∃ r, t.latest attempt a = some r ∧ counts cfg attempt a r = true := by
  cases hf with
  | same results markers archive history created phase =>
    simp only [Settled, latest, history] at hs ⊢
    exact h.final attempt a hs
  | archived v r hv phase eq =>
    subst eq
    obtain ⟨-, hhistory, -⟩ := archivePrevious_keeps s r
    simp only [Settled, latest, enter, hhistory] at hs ⊢
    exact h.final attempt a hs
  | stored v r hv phase eq =>
    subst eq
    have hp := h.pending v hv
    rw [phase] at hp
    obtain ⟨⟨hopen, -⟩, hattempt, harm, -⟩ := hp
    have hlatest := latest_cons s r attempt a (s.results.set r.armId r) (some { v with phase := .marking r })
    rcases settled_cons hs with hc | hs
    · refine ⟨r, hlatest.trans (if_pos ?_), hc⟩
      exact ⟨(counts_iff.mp hc).2.1, (counts_iff.mp hc).2.2.1⟩
    · obtain ⟨q, hq, hcounts⟩ := h.final attempt a hs
      refine ⟨q, (hlatest.trans (if_neg ?_)).trans hq, hcounts⟩
      rintro ⟨rfl, rfl⟩
      rw [hattempt, harm] at hs
      exact hopen hs
  | marked v r hv phase eq =>
    subst eq
    exact h.final attempt a hs

theorem Standing.pending_next (h : s.Standing cfg) {a : Act} {e : Option Event}
    (hn : next cfg s a = some (t, e)) (hok : ∀ attempt, a = .resume attempt → found cfg s attempt = true)
    {u : Invocation} (hu : t.supervisor = some u) : t.Pending cfg u u.phase := by
  cases a with
  | run attempt =>
    simp only [Supervisor.next] at hn
    split_ifs at hn with hc
    cases hn
    cases hu
    intro a _ hs
    obtain ⟨r, hr, -⟩ := hs
    have hr : r ∈ s.history := hr
    rw [h.fresh (by simpa using fun hcreated => hc (.inl hcreated))] at hr
    cases hr
  | resume attempt =>
    simp only [Supervisor.next] at hn
    split at hn
    · cases hn
      cases hu
      exact h.ready (hok attempt rfl)
    · cases hn
  | proceed =>
    obtain ⟨v, hv, hp⟩ := Option.bind_eq_some_iff.mp hn
    exact h.proceed hv hp hu
  | cleanup ok =>
    obtain ⟨v, hv, hp⟩ := Option.bind_eq_some_iff.mp hn
    obtain ⟨w, hw, he⟩ := Option.map_eq_some_iff.mp hp
    cases he
    have hpend := h.pending v hv
    have hsame : ∀ root task, (s.verified root task ok).results = s.results ∧
        (s.verified root task ok).markers = s.markers ∧ (s.verified root task ok).history = s.history := by
      intro root task
      unfold verified
      split_ifs
      · exact ⟨rfl, rfl, rfl⟩
      · exact ⟨rfl, rfl, rfl⟩
    unfold Supervisor.cleanup at hw
    split at hw
    · next a left failures hphase =>
      cases hw
      unfold reclaim at hu ⊢
      cases hx : v.state.arms.get? a with
      | none =>
        rw [hx] at hu
        exact h.pending u hu
      | some x =>
        rw [hx] at hu
        dsimp only at hu ⊢
        split at hu
        · cases hu
          rw [hphase] at hpend
          exact (pending_congr (hsame _ _).1 (hsame _ _).2.1 (hsame _ _).2.2).mpr hpend
        · exact h.pending u hu
    · cases hw
      cases hu
      trivial
    · next timedOut hphase =>
      cases hw
      cases hu
      rw [hphase] at hpend
      exact (pending_congr (hsame _ _).1 (hsame _ _).2.1 (hsame _ _).2.2).mpr hpend
    · cases hw
  | settle candidate badExit =>
    obtain ⟨v, hv, hp⟩ := Option.bind_eq_some_iff.mp hn
    have hpend := h.pending v hv
    split at hp
    · next timedOut cleaned hphase =>
      split_ifs at hp with hc
      cases hp
      cases hu
      rw [hphase] at hpend
      exact ⟨hpend, settled_identity hc rfl⟩
    · cases hp
  | timeout =>
    obtain ⟨v, hv, hp⟩ := Option.bind_eq_some_iff.mp hn
    have hpend := h.pending v hv
    split_ifs at hp with hphase
    cases hp
    cases hu
    rw [hphase] at hpend
    exact hpend
  | interrupt keyboard =>
    obtain ⟨v, hv, hp⟩ := Option.bind_eq_some_iff.mp hn
    split_ifs at hp
    cases hp
    cases hu
    trivial
  | leave written =>
    obtain ⟨v, hv, hp⟩ := Option.bind_eq_some_iff.mp hn
    split_ifs at hp
    · cases hp
      cases hu
    · cases hp
      cases hu
  | kill =>
    obtain ⟨v, hv, hp⟩ := Option.map_eq_some_iff.mp hn
    cases hp
    cases hu
  | workerExits root =>
    cases hn
    exact h.pending u hu

theorem Standing.next (h : s.Standing cfg) (hsound : s.Sound) {a : Act} {e : Option Event}
    (hn : next cfg s a = some (t, e)) (hok : ∀ attempt, a = .resume attempt → found cfg s attempt = true) :
    t.Standing cfg := by
  have hf := Files.of_next hn
  have hcreated : ∀ v, s.supervisor = some v → s.created = true := by
    intro v hv
    exact hsound.begun (.inl (by simp [hv]))
  refine ⟨h.filed.files hf, ?_, h.final_files hf, fun u hu => h.pending_next hn hok hu⟩
  intro hfresh
  cases hf with
  | same results markers archive history created phase =>
    rw [history]
    refine h.fresh (Bool.eq_false_iff.mpr fun hc => ?_)
    simp [created hc] at hfresh
  | archived v r hv phase eq =>
    obtain ⟨-, -, -, hc⟩ := archivePrevious_keeps s r
    subst eq
    simp [enter, hc, hcreated v hv] at hfresh
  | stored v r hv phase eq =>
    subst eq
    simp [enter, hcreated v hv] at hfresh
  | marked v r hv phase eq =>
    subst eq
    simp [enter, mark, hcreated v hv] at hfresh

/-- A resume finds every live worker in the record of its arm, and the outcomes of its attempt on file. -/
def resumable (cfg : Config) (s : State) : Act → Bool
  | .resume attempt => s.recorded && found cfg s attempt
  | _ => true

theorem event_next {a : Act} {ev : Event} (hn : next cfg s a = some (t, some ev)) :
    ∃ v, s.supervisor = some v ∧
      ((v.phase = .launching ∧ ev = .started v.worker ∧ t = launch s v) ∨
        ∃ x r, completedResult cfg s v.attemptId x = some r ∧ ev = .completed x r) := by
  cases a with
  | run attempt =>
    simp only [Supervisor.next] at hn
    split_ifs at hn
    cases hn
  | resume attempt =>
    simp only [Supervisor.next] at hn
    split at hn
    · cases hn
    · cases hn
  | proceed =>
    obtain ⟨v, hv, hp⟩ := Option.bind_eq_some_iff.mp hn
    refine ⟨v, hv, ?_⟩
    cases hphase : v.phase with
    | launching =>
      simp only [Supervisor.proceed, hphase] at hp
      cases hp
      exact .inl ⟨rfl, rfl, rfl⟩
    | choosing =>
      simp only [Supervisor.proceed, hphase] at hp
      obtain ⟨-, he⟩ := Prod.mk.inj (Option.some.inj hp)
      cases htodo : v.todo with
      | nil => simp [htodo] at he
      | cons x rest =>
        cases hc : completedResult cfg s v.attemptId x with
        | none => simp [htodo, hc] at he
        | some r => exact .inr ⟨x, r, hc, by simpa [choose, htodo, hc] using he.symm⟩
    | recovering left failures =>
      cases left with
      | nil => simp [Supervisor.proceed, hphase] at hp
      | cons x left => simp [Supervisor.proceed, hphase] at hp
    | recovered failures =>
      simp only [Supervisor.proceed, hphase] at hp
      split_ifs at hp <;> cases hp
    | waiting =>
      simp only [Supervisor.proceed, hphase] at hp
      split_ifs at hp
      cases hp
    | _ => simp [Supervisor.proceed, hphase] at hp
  | cleanup ok =>
    obtain ⟨v, hv, hp⟩ := Option.bind_eq_some_iff.mp hn
    obtain ⟨u, hu, he⟩ := Option.map_eq_some_iff.mp hp
    cases he
  | settle candidate badExit =>
    obtain ⟨v, hv, hp⟩ := Option.bind_eq_some_iff.mp hn
    split at hp
    · split_ifs at hp
      cases hp
    · cases hp
  | timeout =>
    obtain ⟨v, hv, hp⟩ := Option.bind_eq_some_iff.mp hn
    split_ifs at hp
    cases hp
  | interrupt keyboard =>
    obtain ⟨v, hv, hp⟩ := Option.bind_eq_some_iff.mp hn
    split_ifs at hp
    cases hp
  | leave written =>
    obtain ⟨v, hv, hp⟩ := Option.bind_eq_some_iff.mp hn
    split_ifs at hp <;> cases hp
  | kill =>
    obtain ⟨v, hv, hp⟩ := Option.map_eq_some_iff.mp hn
    cases hp
  | workerExits root => cases hn

theorem restricted_invariant (h : Reachable ((system cfg).restrict fun s l => resumable cfg s l.1 = true) s) :
    s.Sound ∧ s.Standing cfg := by
  refine Reachable.invariant (I := fun s => s.Sound ∧ s.Standing cfg) (fun _ hs => ?_) (fun u l w hu hstep => ?_) h
  · rw [show _ = _ from hs]
    exact ⟨.start, .start⟩
  · have hok : ∀ attempt, l.1 = .resume attempt → u.recorded = true ∧ found cfg u attempt = true := by
      intro attempt ha
      have hr : resumable cfg u l.1 = true := hstep.2
      rw [ha] at hr
      simpa [resumable] using hr
    exact ⟨hu.1.next hstep.1 fun attempt ha => (hok attempt ha).1,
      hu.2.next hu.1 hstep.1 fun attempt ha => (hok attempt ha).2⟩

/-- What a step of the supervisor may start, and what it may take over from an earlier invocation. -/
def Fair (cfg : Config) (s t : State) : Event → Prop
  | .started w => t.workers = [w] ∧ s.uncleaned = [] ∧ ¬s.Settled cfg w.task.1 w.armId
  | .completed a r =>
    r.correctness.cleanupVerified = true ∧ r.armId = a ∧ r.specDigest = cfg.specDigest ∧
      ∃ v, s.supervisor = some v ∧ r.attemptId = v.attemptId

/-- The last result of an attempt is on file or archived for that attempt. -/
def Archived (s : State) : Prop :=
  ∀ attempt a r, s.latest attempt a = some r →
    s.results.get? a = some r ∨ s.archive.get? (attempt, a) = some r

theorem resume_safety (h : Reachable ((system cfg).restrict fun s l => resumable cfg s l.1 = true) s) :
    s.Archived ∧ ∀ a t ev, next cfg s a = some (t, some ev) → Fair cfg s t ev := by
  obtain ⟨hsound, hstanding⟩ := restricted_invariant h
  refine ⟨hstanding.filed.kept, fun a t ev hn => ?_⟩
  obtain ⟨v, hv, ⟨hphase, rfl, rfl⟩ | ⟨x, r, hc, rfl⟩⟩ := event_next hn
  · have hheld := hsound.held v hv
    have hpending := hstanding.pending v hv
    rw [hphase] at hheld hpending
    refine ⟨?_, hheld.1.2, hpending.1⟩
    simp [launch, enter, hheld.1.1]
  · obtain ⟨hcounts, hclean, -⟩ := completed_spec hc
    obtain ⟨-, hattempt, harm, hdigest⟩ := counts_iff.mp hcounts
    exact ⟨hclean, harm, hdigest, v, hv, hattempt⟩

def succeededIn (attempt a : ℕ) : Result := ⟨attempt, a, 7, .succeeded, none, {}⟩

theorem resume_safety_killed :
    let cfg : Config := ⟨[0, 1], 7⟩
    let s := (trace (guarded (resumable cfg) (next cfg)) {}
      [.run 1, .proceed, .proceed, .proceed, .proceed, .proceed, .proceed, .workerExits 0, .proceed, .cleanup true,
        .settle (some (succeededIn 1 0)) false, .proceed, .proceed, .proceed, .proceed, .proceed, .proceed, .proceed,
        .proceed, .proceed, .kill, .resume 1, .proceed, .proceed, .cleanup true, .proceed, .proceed, .proceed,
        .proceed, .proceed, .proceed]).1
    s.supervisor.map (fun v => (v.phase, v.armId, v.results.length)) = some (.launching, 1, 1) ∧
      s.Archived ∧ ∀ a t ev, next cfg s a = some (t, some ev) → Fair cfg s t ev :=
  ⟨by decide +kernel, resume_safety ⟨{}, _, rfl, run_guarded Start (next ⟨[0, 1], 7⟩) (resumable ⟨[0, 1], 7⟩) _ _⟩⟩

def unrecorded : State :=
  (trace (next ⟨[0], 7⟩) {}
    [.run 1, .proceed, .proceed, .proceed, .proceed, .kill, .resume 1, .proceed, .cleanup true, .proceed, .proceed,
      .proceed, .proceed, .proceed]).1

theorem second_worker_started :
    Reachable (system ⟨[0], 7⟩) unrecorded ∧
      ¬∀ a t ev, next ⟨[0], 7⟩ unrecorded a = some (t, some ev) → Fair ⟨[0], 7⟩ unrecorded t ev := by
  refine ⟨(Reachable.start (T := system ⟨[0], 7⟩) rfl).trace _, fun h => ?_⟩
  have hn : ∃ t, next ⟨[0], 7⟩ unrecorded .proceed = some (t, some (.started ⟨1, (1, 0)⟩)) ∧
      t.workers = [⟨1, (1, 0)⟩, ⟨0, (1, 0)⟩] := ⟨_, rfl, by decide +kernel⟩
  obtain ⟨t, hn, hworkers⟩ := hn
  obtain ⟨hone, -⟩ := h _ _ _ hn
  rw [hworkers] at hone
  cases hone

end State

end ClawBox.Supervisor
