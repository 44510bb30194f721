import ClawBox.Cell.Cluster

namespace ClawBox.Cell

namespace Cluster

def Alive (s : Cluster) (name : String) (uid : ℕ) : Prop :=
  ∃ t, s.tasks.get? name = some t ∧ t.uid = uid ∧ FINALIZER ∈ t.finalizers

def Unused (s : Cluster) (name : String) (uid : ℕ) : Prop :=
  s.jobs.get? name = none ∧ (∀ u, s.services.get? name ≠ some (some u)) ∧ uid ∉ s.sandboxes

def Over (s : Cluster) (name : String) (uid : ℕ) : Prop :=
  (∀ j, s.jobs.get? name = some j → j.phase ≠ .running) ∧ (∀ u, s.services.get? name ≠ some (some u)) ∧
    uid ∉ s.sandboxes

structure Sound (s : Cluster) : Prop where
  fresh : ∀ n t, s.tasks.get? n = some t → t.uid < s.nextUid
  distinct : ∀ n m t t', s.tasks.get? n = some t → s.tasks.get? m = some t' → t.uid = t'.uid → n = m
  jobs : ∀ n j, s.jobs.get? n = some j → ∃ u, j.owner = some u ∧ s.Alive n u
  services : ∀ n u, s.services.get? n = some (some u) → s.Alive n u
  sandboxes : ∀ u ∈ s.sandboxes, ∃ n, s.Alive n u
  single : ∀ n m j j', s.jobs.get? n = some j → s.jobs.get? m = some j' → j.phase = .running → j'.phase = .running →
    n = m
  succeeded : ∀ n t, s.tasks.get? n = some t → t.phase = .succeeded → s.Over n t.uid

theorem Alive.name {s : Cluster} (hs : s.Sound) {n m : String} {u : ℕ} (hn : s.Alive n u) (hm : s.Alive m u) :
    n = m := by
  obtain ⟨t, ht, hu, -⟩ := hn
  obtain ⟨t', ht', hu', -⟩ := hm
  exact hs.distinct n m t t' ht ht' (hu.trans hu'.symm)

theorem get?_putTask (s : Cluster) (n m : String) (t : Task) : (s.putTask n t).tasks.get? m =
    if m = n then if t.deletionTimestamp ∧ t.finalizers = [] then none else some t else s.tasks.get? m := by
  unfold putTask
  split_ifs with hgone hm hm
  · rw [hm, PyDict.get?_pop_self]
  · exact PyDict.get?_pop_ne _ hm
  · rw [hm, PyDict.get?_set_self]
  · exact PyDict.get?_set_ne _ _ hm

theorem alive_putTask {s : Cluster} {n m : String} {t t' : Task} {u : ℕ} (ht : s.tasks.get? n = some t)
    (huid : t'.uid = t.uid) (hkeep : m = n → FINALIZER ∈ t.finalizers → FINALIZER ∈ t'.finalizers) (ha : s.Alive m u) :
    (s.putTask n t').Alive m u := by
  obtain ⟨x, hx, hu, hf⟩ := ha
  by_cases hm : m = n
  · subst hm
    rw [ht] at hx
    cases hx
    have hf' := hkeep rfl hf
    refine ⟨t', ?_, huid.trans hu, hf'⟩
    have hne : t'.finalizers ≠ [] := fun h => by rw [h] at hf'; cases hf'
    rw [get?_putTask, if_pos rfl, if_neg fun h => hne h.2]
  · refine ⟨x, ?_, hu, hf⟩
    rw [get?_putTask, if_neg hm, hx]

theorem sound_putTask {s : Cluster} (hs : s.Sound) {n : String} {t t' : Task} (ht : s.tasks.get? n = some t)
    (huid : t'.uid = t.uid) (hkeep : FINALIZER ∈ t.finalizers → FINALIZER ∈ t'.finalizers ∨ s.Unused n t.uid)
    (hover : t'.phase = .succeeded → s.Over n t.uid) : (s.putTask n t').Sound := by
  have hget : ∀ m x, (s.putTask n t').tasks.get? m = some x →
      m = n ∧ x = t' ∨ m ≠ n ∧ s.tasks.get? m = some x := by
    intro m x hx
    rw [get?_putTask] at hx
    split_ifs at hx with hm hgone
    · cases hx
      exact .inl ⟨hm, rfl⟩
    · exact .inr ⟨hm, hx⟩
  have hold : ∀ m x, (s.putTask n t').tasks.get? m = some x → ∃ y, s.tasks.get? m = some y ∧ y.uid = x.uid := by
    intro m x hx
    rcases hget m x hx with ⟨rfl, rfl⟩ | ⟨-, hx⟩
    · exact ⟨t, ht, huid.symm⟩
    · exact ⟨x, hx, rfl⟩
  have halive : ∀ m u, s.Alive m u → (m = n → ¬ s.Unused n t.uid) → (s.putTask n t').Alive m u := by
    intro m u ha hused
    refine alive_putTask ht huid ?_ ha
    intro hm hf
    exact (hkeep hf).resolve_right (hused hm)
  refine ⟨?_, ?_, ?_, ?_, ?_, hs.single, ?_⟩
  · intro m x hx
    obtain ⟨y, hy, hyx⟩ := hold m x hx
    rw [← hyx]
    exact hs.fresh m y hy
  · intro m k x x' hx hx' hxx
    obtain ⟨y, hy, hyx⟩ := hold m x hx
    obtain ⟨y', hy', hyx'⟩ := hold k x' hx'
    exact hs.distinct m k y y' hy hy' (by rw [hyx, hyx', hxx])
  · intro m j hj
    obtain ⟨u, hu, ha⟩ := hs.jobs m j hj
    refine ⟨u, hu, halive m u ha ?_⟩
    rintro rfl ⟨hnone, -⟩
    cases hnone.symm.trans hj
  · intro m u hm
    refine halive m u (hs.services m u hm) ?_
    rintro rfl ⟨-, hnot, -⟩
    exact hnot u hm
  · intro u hu
    obtain ⟨m, ha⟩ := hs.sandboxes u hu
    refine ⟨m, halive m u ha ?_⟩
    rintro rfl ⟨-, -, hnot⟩
    obtain ⟨y, hy, rfl, -⟩ := ha
    rw [ht] at hy
    cases hy
    exact hnot hu
  · intro m x hx hp
    rcases hget m x hx with ⟨rfl, rfl⟩ | ⟨-, hx⟩
    · rw [huid]
      exact hover hp
    · exact hs.succeeded m x hx hp

structure Shrinks (s t : Cluster) : Prop where
  tasks : t.tasks = s.tasks
  nextUid : t.nextUid = s.nextUid
  jobs : ∀ n j, t.jobs.get? n = some j → s.jobs.get? n = some j
  services : ∀ n u, t.services.get? n = some (some u) → s.services.get? n = some (some u)
  sandboxes : ∀ u ∈ t.sandboxes, u ∈ s.sandboxes

theorem Shrinks.refl (s : Cluster) : Shrinks s s := ⟨rfl, rfl, fun _ _ h => h, fun _ _ h => h, fun _ h => h⟩

theorem Shrinks.alive {s t : Cluster} (h : Shrinks s t) {n : String} {u : ℕ} (ha : s.Alive n u) : t.Alive n u := by
  rw [Alive, h.tasks]
  exact ha

theorem Shrinks.over {s t : Cluster} (h : Shrinks s t) {n : String} {u : ℕ} (ho : s.Over n u) : t.Over n u :=
  ⟨fun j hj => ho.1 j (h.jobs n j hj), fun v hv => ho.2.1 v (h.services n v hv), fun hu => ho.2.2 (h.sandboxes u hu)⟩

theorem sound_shrinks {s t : Cluster} (hs : s.Sound) (h : Shrinks s t) : t.Sound := by
  refine ⟨?_, ?_, ?_, ?_, ?_, ?_, ?_⟩
  · intro n x hx
    rw [h.nextUid]
    exact hs.fresh n x (h.tasks ▸ hx)
  · intro n m x x' hx hx'
    exact hs.distinct n m x x' (h.tasks ▸ hx) (h.tasks ▸ hx')
  · intro n j hj
    obtain ⟨u, hu, ha⟩ := hs.jobs n j (h.jobs n j hj)
    exact ⟨u, hu, h.alive ha⟩
  · exact fun n u hu => h.alive (hs.services n u (h.services n u hu))
  · intro u hu
    obtain ⟨n, ha⟩ := hs.sandboxes u (h.sandboxes u hu)
    exact ⟨n, h.alive ha⟩
  · exact fun n m j j' hj hj' => hs.single n m j j' (h.jobs n j hj) (h.jobs m j' hj')
  · exact fun n x hx hp => h.over (hs.succeeded n x (h.tasks ▸ hx) hp)

theorem shrinks_popJob (s : Cluster) (n : String) : Shrinks s (s.popJob n) := by
  refine ⟨rfl, rfl, fun m j hj => ?_, fun _ _ h => h, fun _ h => h⟩
  rw [popJob, PyDict.get?_pop] at hj
  split_ifs at hj
  exact hj

theorem shrinks_setService {s : Cluster} (n : String) : Shrinks s (s.setService n none) := by
  refine ⟨rfl, rfl, fun _ _ h => h, fun m u hu => ?_, fun _ h => h⟩
  rw [setService, PyDict.get?_set] at hu
  split_ifs at hu
  · cases hu
  · exact hu

theorem shrinks_popService (s : Cluster) (n : String) : Shrinks s (s.popService n) := by
  refine ⟨rfl, rfl, fun _ _ h => h, fun m u hu => ?_, fun _ h => h⟩
  rw [popService, PyDict.get?_pop] at hu
  split_ifs at hu
  exact hu

theorem shrinks_sandboxes {s : Cluster} {left : List ℕ} (h : List.Sublist left s.sandboxes) :
    Shrinks s { s with sandboxes := left } :=
  ⟨rfl, rfl, fun _ _ h => h, fun _ _ h => h, fun _ hu => h.subset hu⟩

theorem sound_setJob {s : Cluster} (hs : s.Sound) {n : String} {j : Job} {u : ℕ} (hu : j.owner = some u)
    (ha : s.Alive n u) (hrun : j.phase = .running → (∀ m x, m ≠ n → s.jobs.get? m = some x → x.phase ≠ .running) ∧
      ∀ t, s.tasks.get? n = some t → t.phase ≠ .succeeded) : (s.setJob n j).Sound := by
  have hget : ∀ m x, (s.setJob n j).jobs.get? m = some x → m = n ∧ x = j ∨ m ≠ n ∧ s.jobs.get? m = some x := by
    intro m x hx
    rw [setJob, PyDict.get?_set] at hx
    split_ifs at hx with hm
    · cases hx
      exact .inl ⟨hm, rfl⟩
    · exact .inr ⟨hm, hx⟩
  refine ⟨hs.fresh, hs.distinct, ?_, hs.services, hs.sandboxes, ?_, ?_⟩
  · intro m x hx
    rcases hget m x hx with ⟨rfl, rfl⟩ | ⟨-, hx⟩
    · exact ⟨u, hu, ha⟩
    · exact hs.jobs m x hx
  · intro m k x y hx hy hrx hry
    rcases hget m x hx with ⟨rfl, rfl⟩ | ⟨hm, hx'⟩
    · rcases hget k y hy with ⟨rfl, rfl⟩ | ⟨hk, hy⟩
      · rfl
      · exact absurd hry ((hrun hrx).1 k y hk hy)
    · rcases hget k y hy with ⟨rfl, rfl⟩ | ⟨hk, hy'⟩
      · exact absurd hrx ((hrun hry).1 m x hm hx')
      · exact hs.single m k x y hx' hy' hrx hry
  · intro m t ht hp
    obtain ⟨h₁, h₂, h₃⟩ := hs.succeeded m t ht hp
    refine ⟨fun x hx => ?_, h₂, h₃⟩
    rcases hget m x hx with ⟨rfl, rfl⟩ | ⟨-, hx⟩
    · exact fun hr => (hrun hr).2 t ht hp
    · exact h₁ x hx

theorem Job.phase_mono {j : Job} {succeeded failed : ℕ} (hsucc : j.succeeded ≤ succeeded) (hfail : j.failed ≤ failed)
    (h : Job.phase { j with succeeded := succeeded, failed := failed } = .running) : j.phase = .running := by
  unfold Job.phase at h ⊢
  split_ifs at h with h₁ h₂
  dsimp only at h₁ h₂
  have hs : j.succeeded = 0 := by omega
  have hf : j.failed = 0 := by omega
  simp [hs, hf]

theorem others_sound {s t : Cluster} (hs : s.Sound) (h : Others s t) : t.Sound := by
  cases h with
  | @createTask name task hnone huid hdel hphase =>
    have hget : ∀ m x, (s.tasks.set name task).get? m = some x → m = name ∧ x = task ∨ m ≠ name ∧
        s.tasks.get? m = some x := by
      intro m x hx
      rw [PyDict.get?_set] at hx
      split_ifs at hx with hm
      · cases hx
        exact .inl ⟨hm, rfl⟩
      · exact .inr ⟨hm, hx⟩
    have halive : ∀ m u, s.Alive m u →
        Alive { s with tasks := s.tasks.set name task, nextUid := s.nextUid + 1 } m u := by
      rintro m u ⟨x, hx, hxu⟩
      have hm : m ≠ name := by
        rintro rfl
        cases hnone.symm.trans hx
      exact ⟨x, by rw [PyDict.get?_set_ne _ _ hm, hx], hxu⟩
    refine ⟨?_, ?_, ?_, ?_, ?_, hs.single, ?_⟩
    · intro m x hx
      rcases hget m x hx with ⟨rfl, rfl⟩ | ⟨-, hx⟩
      · exact huid ▸ Nat.lt_succ_self _
      · exact Nat.lt_succ_of_lt (hs.fresh m x hx)
    · intro m k x y hx hy hxy
      rcases hget m x hx with ⟨rfl, rfl⟩ | ⟨-, hx'⟩
      · rcases hget k y hy with ⟨rfl, rfl⟩ | ⟨-, hy'⟩
        · rfl
        · have := hs.fresh k y hy'
          omega
      · rcases hget k y hy with ⟨rfl, rfl⟩ | ⟨-, hy'⟩
        · have := hs.fresh m x hx'
          omega
        · exact hs.distinct m k x y hx' hy' hxy
    · intro m j hj
      obtain ⟨u, hu, ha⟩ := hs.jobs m j hj
      exact ⟨u, hu, halive m u ha⟩
    · exact fun m u hu => halive m u (hs.services m u hu)
    · intro u hu
      obtain ⟨m, ha⟩ := hs.sandboxes u hu
      exact ⟨m, halive m u ha⟩
    · intro m x hx hp
      rcases hget m x hx with ⟨rfl, rfl⟩ | ⟨-, hx⟩
      · rw [hphase] at hp
        cases hp
      · exact hs.succeeded m x hx hp
  | editTask spec ht => exact sound_putTask hs ht rfl .inl fun hp => hs.succeeded _ _ ht hp
  | editFinalizers finalizers ht hkeep =>
    exact sound_putTask hs ht rfl (fun hf => .inl (hkeep hf)) fun hp => hs.succeeded _ _ ht hp
  | deleteTask ht => exact sound_putTask hs ht rfl .inl fun hp => hs.succeeded _ _ ht hp
  | @jobProgress name j succeeded failed hj hsucc hfail =>
    obtain ⟨u, hu, ha⟩ := hs.jobs name j hj
    refine sound_setJob hs hu ha fun hr => ?_
    have hrun := Job.phase_mono hsucc hfail hr
    refine ⟨fun m x hm hx hrx => hm (hs.single m name x j hx hj hrx hrun), fun t ht hp => ?_⟩
    exact (hs.succeeded name t ht hp).1 j hj hrun
  | jobGone name => exact sound_shrinks hs (shrinks_popJob s name)
  | foreignService name _ => exact sound_shrinks hs (shrinks_setService name)
  | serviceGone name => exact sound_shrinks hs (shrinks_popService s name)
  | configMaps _ => exact ⟨hs.fresh, hs.distinct, hs.jobs, hs.services, hs.sandboxes, hs.single, hs.succeeded⟩
  | @sandboxStarted name j u hj hrun hu =>
    obtain ⟨v, hv, ha⟩ := hs.jobs name j hj
    have huv : v = u := Option.some.inj (hv.symm.trans hu)
    subst huv
    refine ⟨hs.fresh, hs.distinct, hs.jobs, hs.services, ?_, hs.single, ?_⟩
    · intro w hw
      rcases List.mem_cons.1 hw with rfl | hw
      · exact ⟨name, ha⟩
      · exact hs.sandboxes w hw
    · intro m t ht hp
      obtain ⟨h₁, h₂, h₃⟩ := hs.succeeded m t ht hp
      refine ⟨h₁, h₂, fun hmem => ?_⟩
      rcases List.mem_cons.1 hmem with htu | hmem
      · obtain ⟨x, hx, hxu, -⟩ := ha
        have hname : m = name := hs.distinct m name t x ht hx (htu.trans hxu.symm)
        subst hname
        exact h₁ j hj hrun
      · exact h₃ hmem
  | sandboxesGone h => exact sound_shrinks hs (shrinks_sandboxes h)

def Stays (a b : Task) : Prop :=
  b.phase = a.phase ∧ b.errorCategory = a.errorCategory ∨ b.phase = .failed ∧ b.errorCategory = some "invalid_spec"

theorem Stays.refl (a : Task) : Stays a a := .inl ⟨rfl, rfl⟩

theorem Stays.trans {a b c : Task} (hab : Stays a b) (hbc : Stays b c) : Stays a c := by
  rcases hbc with ⟨hphase, hcategory⟩ | hfailed
  · rcases hab with ⟨hphase', hcategory'⟩ | ⟨hphase', hcategory'⟩
    · exact .inl ⟨hphase.trans hphase', hcategory.trans hcategory'⟩
    · exact .inr ⟨hphase.trans hphase', hcategory.trans hcategory'⟩
  · exact .inr hfailed

theorem Stays.terminal {a b : Task} (h : Stays a b) (ha : a.phase ∈ TERMINAL) : b.phase ∈ TERMINAL := by
  rcases h with ⟨hphase, -⟩ | ⟨hphase, -⟩
  · rwa [hphase]
  · rw [hphase]
    decide

def Steady (s t : Cluster) : Prop :=
  s.nextUid ≤ t.nextUid ∧ ∀ n b, t.tasks.get? n = some b → b.uid < s.nextUid → ∃ a, s.tasks.get? n = some a ∧
    a.uid = b.uid ∧
    (a.phase ∈ TERMINAL → Stays a b ∧ (s.jobs.get? n = none → t.jobs.get? n = none))

theorem shrinks_steady {s t : Cluster} (h : Shrinks s t) : Steady s t := by
  refine ⟨h.nextUid.ge, fun n b hb _ => ⟨b, h.tasks ▸ hb, rfl, fun _ => ⟨.refl b, fun hn => ?_⟩⟩⟩
  cases hj : t.jobs.get? n with
  | none => rfl
  | some j => exact absurd (hn.symm.trans (h.jobs n j hj)) (by simp)

theorem steady_putTask {s : Cluster} {n : String} {t t' : Task} (ht : s.tasks.get? n = some t) (huid : t'.uid = t.uid)
    (hphase : t.phase ∈ TERMINAL → Stays t t') : Steady s (s.putTask n t') := by
  refine ⟨le_rfl, fun m b hb _ => ?_⟩
  rw [get?_putTask] at hb
  split_ifs at hb with hm
  · cases hb
    subst hm
    exact ⟨t, ht, huid.symm, fun hterm => ⟨hphase hterm, fun h => h⟩⟩
  · exact ⟨b, hb, rfl, fun _ => ⟨.refl b, fun h => h⟩⟩

theorem steady_setJob {s : Cluster} {n : String} {j : Job}
    (h : (s.jobs.get? n).isSome ∨ ∀ t, s.tasks.get? n = some t → t.phase ∉ TERMINAL) : Steady s (s.setJob n j) := by
  refine ⟨le_rfl, fun m b hb _ => ⟨b, hb, rfl, fun hterm => ⟨.refl b, fun hn => ?_⟩⟩⟩
  have hm : m ≠ n := by
    rintro rfl
    rcases h with h | h
    · simp [hn] at h
    · exact h b hb hterm
  rw [setJob, PyDict.get?_set_ne _ _ hm, hn]

theorem others_steady {s t : Cluster} (h : Others s t) : Steady s t := by
  cases h with
  | @createTask name task hnone huid _ _ =>
    refine ⟨Nat.le_succ _, fun m b hb hlt => ?_⟩
    have hm : m ≠ name := by
      rintro rfl
      rw [PyDict.get?_set_self] at hb
      cases hb
      omega
    rw [PyDict.get?_set_ne _ _ hm] at hb
    exact ⟨b, hb, rfl, fun _ => ⟨.refl b, fun h => h⟩⟩
  | editTask spec ht => exact steady_putTask ht rfl fun _ => .inl ⟨rfl, rfl⟩
  | editFinalizers finalizers ht _ => exact steady_putTask ht rfl fun _ => .inl ⟨rfl, rfl⟩
  | deleteTask ht => exact steady_putTask ht rfl fun _ => .inl ⟨rfl, rfl⟩
  | jobProgress succeeded failed hj _ _ => exact steady_setJob (.inl (by rw [hj]; rfl))
  | jobGone name => exact shrinks_steady (shrinks_popJob s name)
  | foreignService name _ => exact shrinks_steady (shrinks_setService name)
  | serviceGone name => exact shrinks_steady (shrinks_popService s name)
  | configMaps _ => exact ⟨le_rfl, fun m b hb _ => ⟨b, hb, rfl, fun _ => ⟨.refl b, fun h => h⟩⟩⟩
  | sandboxStarted _ _ _ => exact ⟨le_rfl, fun m b hb _ => ⟨b, hb, rfl, fun _ => ⟨.refl b, fun h => h⟩⟩⟩
  | sandboxesGone h => exact shrinks_steady (shrinks_sandboxes h)

def Mine (s : Cluster) (name : String) (task : Task) : Prop :=
  ∃ t, s.tasks.get? name = some t ∧ t.uid = task.uid ∧ FINALIZER ∈ t.finalizers ∧ t.phase = task.phase

theorem Mine.alive {s : Cluster} {n : String} {task : Task} (h : s.Mine n task) : s.Alive n task.uid := by
  obtain ⟨t, ht, hu, hf, -⟩ := h
  exact ⟨t, ht, hu, hf⟩

theorem others_mine {s t : Cluster} (h : Others s t) {n : String} {task : Task} (hm : s.Mine n task) :
    t.Mine n task := by
  obtain ⟨x, hx, hu, hf, hp⟩ := hm
  have hput : ∀ {name : String} {y y' : Task}, s.tasks.get? name = some y → y'.uid = y.uid → y'.phase = y.phase →
      (FINALIZER ∈ y.finalizers → FINALIZER ∈ y'.finalizers) → (s.putTask name y').Mine n task := by
    intro name y y' hy hyu hyp hkeep
    by_cases hn : n = name
    · subst hn
      rw [hx] at hy
      cases hy
      have hne : y'.finalizers ≠ [] := fun h => by
        have := hkeep hf
        rw [h] at this
        cases this
      exact ⟨y', by rw [get?_putTask, if_pos rfl, if_neg fun h => hne h.2], hyu.trans hu, hkeep hf, hyp.trans hp⟩
    · exact ⟨x, by rw [get?_putTask, if_neg hn, hx], hu, hf, hp⟩
  cases h with
  | createTask hnone _ _ _ =>
    refine ⟨x, ?_, hu, hf, hp⟩
    rw [PyDict.get?_set_ne, hx]
    rintro rfl
    cases hnone.symm.trans hx
  | editTask spec ht => exact hput ht rfl rfl fun h => h
  | editFinalizers finalizers ht hkeep => exact hput ht rfl rfl hkeep
  | deleteTask ht => exact hput ht rfl rfl fun h => h
  | jobProgress _ _ _ _ _ => exact ⟨x, hx, hu, hf, hp⟩
  | jobGone _ => exact ⟨x, hx, hu, hf, hp⟩
  | foreignService _ _ => exact ⟨x, hx, hu, hf, hp⟩
  | serviceGone _ => exact ⟨x, hx, hu, hf, hp⟩
  | configMaps _ => exact ⟨x, hx, hu, hf, hp⟩
  | sandboxStarted _ _ _ => exact ⟨x, hx, hu, hf, hp⟩
  | sandboxesGone _ => exact ⟨x, hx, hu, hf, hp⟩

theorem others_alive {s t : Cluster} (h : Others s t) {n : String} {u : ℕ} (ha : s.Alive n u) : t.Alive n u := by
  obtain ⟨x, hx, rfl, hf⟩ := ha
  have hm : s.Mine n x := ⟨x, hx, rfl, hf, rfl⟩
  exact (others_mine h hm).alive

theorem others_job {s t : Cluster} (h : Others s t) {n : String} {j : Job} (hj : t.jobs.get? n = some j) :
    ∃ x, s.jobs.get? n = some x ∧ (j.phase = .running → x.phase = .running) := by
  cases h with
  | @jobProgress name x succeeded failed hx hsucc hfail =>
    rw [setJob, PyDict.get?_set] at hj
    split_ifs at hj with hn
    · cases hj
      subst hn
      exact ⟨x, hx, Job.phase_mono hsucc hfail⟩
    · exact ⟨j, hj, fun h => h⟩
  | jobGone name => exact ⟨j, (shrinks_popJob s name).jobs n j hj, fun h => h⟩
  | createTask _ _ _ _ => exact ⟨j, hj, fun h => h⟩
  | editTask _ _ => exact ⟨j, hj, fun h => h⟩
  | editFinalizers _ _ _ => exact ⟨j, hj, fun h => h⟩
  | deleteTask _ => exact ⟨j, hj, fun h => h⟩
  | foreignService _ _ => exact ⟨j, hj, fun h => h⟩
  | serviceGone _ => exact ⟨j, hj, fun h => h⟩
  | configMaps _ => exact ⟨j, hj, fun h => h⟩
  | sandboxStarted _ _ _ => exact ⟨j, hj, fun h => h⟩
  | sandboxesGone _ => exact ⟨j, hj, fun h => h⟩

theorem others_service {s t : Cluster} (h : Others s t) {n : String} {u : ℕ} (hu : t.services.get? n = some (some u)) :
    s.services.get? n = some (some u) := by
  cases h with
  | foreignService name _ => exact (shrinks_setService name).services n u hu
  | serviceGone name => exact (shrinks_popService s name).services n u hu
  | createTask _ _ _ _ => exact hu
  | editTask _ _ => exact hu
  | editFinalizers _ _ _ => exact hu
  | deleteTask _ => exact hu
  | jobProgress _ _ _ _ _ => exact hu
  | jobGone _ => exact hu
  | configMaps _ => exact hu
  | sandboxStarted _ _ _ => exact hu
  | sandboxesGone _ => exact hu

theorem others_sandbox {s t : Cluster} (h : Others s t) {u : ℕ} (hu : u ∈ t.sandboxes) :
    u ∈ s.sandboxes ∨ ∃ n j, s.jobs.get? n = some j ∧ j.phase = .running ∧ j.owner = some u := by
  cases h with
  | @sandboxStarted name j v hj hrun hv =>
    rcases List.mem_cons.1 hu with rfl | hu
    · exact .inr ⟨name, j, hj, hrun, hv⟩
    · exact .inl hu
  | sandboxesGone h => exact .inl (h.subset hu)
  | createTask _ _ _ _ => exact .inl hu
  | editTask _ _ => exact .inl hu
  | editFinalizers _ _ _ => exact .inl hu
  | deleteTask _ => exact .inl hu
  | jobProgress _ _ _ _ _ => exact .inl hu
  | jobGone _ => exact .inl hu
  | foreignService _ _ => exact .inl hu
  | serviceGone _ => exact .inl hu
  | configMaps _ => exact .inl hu

theorem others_over {s t : Cluster} (hs : s.Sound) (h : Others s t) {n : String} {u : ℕ} (ha : s.Alive n u)
    (ho : s.Over n u) :
    t.Over n u := by
  refine ⟨fun j hj hr => ?_, fun v hv => ho.2.1 v (others_service h hv), fun hu => ?_⟩
  · obtain ⟨x, hx, hxr⟩ := others_job h hj
    exact ho.1 x hx (hxr hr)
  · rcases others_sandbox h hu with hu | ⟨m, j, hj, hrun, hju⟩
    · exact ho.2.2 hu
    · obtain ⟨w, hw, hm⟩ := hs.jobs m j hj
      rw [hju] at hw
      cases hw
      have hmn := hm.name hs ha
      subst hmn
      exact ho.1 j hj hrun

theorem Unused.over {s : Cluster} {n : String} {u : ℕ} (h : s.Unused n u) : s.Over n u := by
  refine ⟨fun j hj => ?_, h.2⟩
  cases h.1.symm.trans hj

theorem others_unused {s t : Cluster} (hs : s.Sound) (h : Others s t) {n : String} {u : ℕ} (ha : s.Alive n u)
    (ho : s.Unused n u) : t.Unused n u := by
  obtain ⟨-, h₂, h₃⟩ := others_over hs h ha ho.over
  refine ⟨?_, h₂, h₃⟩
  cases hj : t.jobs.get? n with
  | none => rfl
  | some j =>
    obtain ⟨x, hx, -⟩ := others_job h hj
    cases ho.1.symm.trans hx

end Cluster

end ClawBox.Cell
