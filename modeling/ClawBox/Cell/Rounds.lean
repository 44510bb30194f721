import ClawBox.Cell.Reconciler
import ClawBox.Cell.Sound

namespace ClawBox.Cell

open Remote Transition Cluster

def quiet : Pact api := ⟨Sound, Shrinks, fun _ _ => others_sound⟩

def only (name : String) : Pact api :=
  ⟨Sound, fun s t => Steady s t ∧ ∀ m, m ≠ name → t.tasks.get? m = s.tasks.get? m, fun _ _ => others_sound⟩

def whole : Pact api := ⟨Sound, Steady, fun _ _ => others_sound⟩

section Requests

variable {P : Pact api} {R : Cluster → Prop}

theorem triple_send {r : Req} {Q : Except ApiError r.Out → Cluster → Prop} (hR : P.Stable R)
    (h : ∀ s a t, P.Inv s → R s → act r s a t → P.Inv t ∧ P.Guar s t ∧ Q a t) : P.Triple R (send r) Q :=
  Pact.triple_call hR h

theorem triple_request {r : Req} {Q : r.Out → Cluster → Prop} (hR : P.Stable R)
    (h : ∀ s a t, P.Inv s → R s → act r s a t → P.Inv t ∧ P.Guar s t ∧ ∀ x, a = .ok x → Q x t) :
    P.Triple R (request r) Q := by
  have hcall : P.Triple R (send r) fun a t => ∀ x, a = .ok x → Q x t :=
    triple_send hR h
  refine Pact.triple_bind hcall fun a => ?_
  cases a with
  | ok x => exact Pact.triple_pure fun s _ hq => hq x rfl
  | error e => exact Pact.triple_throw

theorem triple_get {r : Req} {Q : Option r.Out → Cluster → Prop} (hR : P.Stable R)
    (h : ∀ s a t, P.Inv s → R s → act r s a t → P.Inv t ∧ P.Guar s t ∧ (∀ x, a = .ok x → Q (some x) t) ∧
      (a = .error .notFound → Q none t)) : P.Triple R (get r) Q := by
  have hcall : P.Triple R (send r) fun a t =>
      (∀ x, a = .ok x → Q (some x) t) ∧ (a = .error .notFound → Q none t) := triple_send hR h
  refine Pact.triple_bind hcall fun a => ?_
  cases a with
  | ok x => exact Pact.triple_pure fun s _ hq => hq.1 x rfl
  | error e =>
    cases e with
    | notFound => exact Pact.triple_pure fun s _ hq => hq.2 rfl
    | conflict => exact Pact.triple_throw
    | other => exact Pact.triple_throw

theorem triple_ignoreNotFound {r : Req} {Q : Cluster → Prop} (hR : P.Stable R)
    (h : ∀ s a t, P.Inv s → R s → act r s a t → P.Inv t ∧ P.Guar s t ∧ Q t) :
    P.Triple R (ignoreNotFound r) (fun _ => Q) := by
  have hcall : P.Triple R (send r) fun _ t => Q t := triple_send hR h
  refine Pact.triple_bind hcall fun a => ?_
  cases a with
  | ok x => exact Pact.triple_pure fun s _ hq => hq
  | error e =>
    cases e with
    | notFound => exact Pact.triple_pure fun s _ hq => hq
    | conflict => exact Pact.triple_throw
    | other => exact Pact.triple_throw

end Requests

theorem reads_eq {β : Type} {answer a : Except ApiError β} {s t : Cluster} (h : reads answer s a t) : t = s := h.1

theorem reads_found {β : Type} {o : Option β} {a : Except ApiError β} {s t : Cluster} (h : reads (found o) s a t) :
    t = s ∧ (∀ x, a = .ok x → o = some x) ∧ (a = .error .notFound → o = none) := by
  obtain ⟨rfl, ha⟩ := h
  refine ⟨rfl, fun x hx => ?_, fun hn => ?_⟩
  · rcases ha with ha | ha
    · cases o with
      | none => cases ha.symm.trans hx
      | some y =>
        cases ha.symm.trans hx
        rfl
    · cases ha.symm.trans hx
  · rcases ha with ha | ha
    · cases o with
      | none => rfl
      | some y => cases ha.symm.trans hn
    · cases ha.symm.trans hn

theorem delete_shrinks {β : Type} {d : PyDict String β} {name : String} {effect s t : Cluster}
    {a : Except ApiError Unit} (h : delete d name effect s a t) (he : Shrinks s effect) : Shrinks s t := by
  unfold delete at h
  split_ifs at h
  · rcases h with (⟨rfl, -⟩ | ⟨rfl, -⟩) | ⟨rfl, -⟩
    · exact he
    · exact .refl _
    · exact .refl _
  · rw [reads_eq h]
    exact .refl _

theorem quiet_read {s t : Cluster} (hs : s.Sound) (h : t = s) : t.Sound ∧ Shrinks s t := by
  subst h
  exact ⟨hs, .refl _⟩

theorem triple_deleteJob (name : String) :
    quiet.Triple (fun _ => True) (deleteJob name) fun gone s => gone = true → s.jobs.get? name = none := by
  have hdelete : quiet.Triple (fun _ => True) (ignoreNotFound (.deleteJob name)) fun _ _ => True := by
    refine triple_ignoreNotFound Pact.stable_true fun s a t hs _ ha => ?_
    have hsh := delete_shrinks ha (shrinks_popJob s name)
    exact ⟨sound_shrinks hs hsh, hsh, trivial⟩
  have hget : quiet.Triple (fun _ => True) (get (.readJob name)) fun o (s : Cluster) => o = none →
      s.jobs.get? name = none := by
    refine triple_get Pact.stable_true fun s a t hs _ ha => ?_
    obtain ⟨hts, -, hnone⟩ := reads_found ha
    obtain ⟨ht, hsh⟩ := quiet_read hs hts
    refine ⟨ht, hsh, fun x _ h => ?_, fun hn _ => ?_⟩
    · cases h
    · rw [hts]
      exact hnone hn
  refine Pact.triple_bind hdelete fun _ => Pact.triple_bind hget fun o => Pact.triple_pure fun s _ hq hgone => ?_
  exact hq (Option.isNone_iff_eq_none.1 hgone)

theorem triple_deleteBridgeService (name : String) :
    quiet.Triple (fun _ => True) (deleteBridgeService name) fun gone s => gone = true →
      ∀ u, s.services.get? name ≠ some (some u) := by
  have hdelete : quiet.Triple (fun _ => True) (ignoreNotFound (.deleteService name)) fun _ _ => True := by
    refine triple_ignoreNotFound Pact.stable_true fun s a t hs _ ha => ?_
    have hsh := delete_shrinks ha (shrinks_popService s name)
    exact ⟨sound_shrinks hs hsh, hsh, trivial⟩
  have hget : quiet.Triple (fun _ => True) (get (.readService name)) fun o (s : Cluster) =>
      o = none → ∀ u, s.services.get? name ≠ some (some u) := by
    refine triple_get Pact.stable_true fun s a t hs _ ha => ?_
    obtain ⟨hts, -, hnone⟩ := reads_found ha
    obtain ⟨ht, hsh⟩ := quiet_read hs hts
    refine ⟨ht, hsh, fun x _ h => ?_, fun hn _ u => ?_⟩
    · cases h
    · rw [hts, hnone hn]
      exact fun h => by cases h
  refine Pact.triple_bind hdelete fun _ => Pact.triple_bind hget fun o => Pact.triple_pure fun s _ hq hgone => ?_
  exact hq (Option.isNone_iff_eq_none.1 hgone)

theorem triple_kill {R : Cluster → Prop} (hR : quiet.Stable R) (hG : ∀ s t, Sound s → Shrinks s t → R s → R t)
    (uid : ℕ) :
    quiet.Triple R (request (.killOwnedSandboxes uid)) fun _ => R := by
  refine triple_request hR fun s a t hs hr ha => ?_
  obtain ⟨left, hsub, -, rfl, -⟩ := ha
  have hsh := shrinks_sandboxes hsub
  exact ⟨sound_shrinks hs hsh, hsh, fun _ _ => hG s _ hs hsh hr⟩

theorem triple_left {R : Cluster → Prop} (hR : quiet.Stable R) (uid : ℕ) :
    quiet.Triple R (request (.listOwnedSandboxes uid)) fun left s =>
      R s ∧ (List.isEmpty left = true → uid ∉ s.sandboxes) := by
  refine triple_request hR fun s a t hs hr ha => ?_
  obtain ⟨rfl, ha⟩ := ha
  refine ⟨hs, .refl _, fun x hx => ⟨hr, fun hempty hmem => ?_⟩⟩
  rcases ha with ha | ha
  · cases ha.symm.trans hx
    have hnil := List.isEmpty_iff.1 hempty
    have hin : uid ∈ t.sandboxes.filter (· = uid) := List.mem_filter.2 ⟨hmem, by simp⟩
    rw [hnil] at hin
    cases hin
  · cases ha.symm.trans hx

theorem stable_alive (p : Prop) (name : String) (uid : ℕ) : quiet.Stable fun s => p → s.Alive name uid :=
  fun _ _ _ ht h hp => others_alive ht (h hp)

theorem stable_noJob (p : Prop) (name : String) : quiet.Stable fun s => p → s.jobs.get? name = none := by
  intro s t _ ht h hp
  cases hj : t.jobs.get? name with
  | none => rfl
  | some j =>
    obtain ⟨x, hx, -⟩ := others_job ht hj
    cases (h hp).symm.trans hx

theorem shrinks_noJob {p : Prop} {name : String} {s t : Cluster} (h : Shrinks s t) (hs : p → s.jobs.get? name = none) :
    p → t.jobs.get? name = none := by
  intro hp
  cases hj : t.jobs.get? name with
  | none => rfl
  | some j => cases (hs hp).symm.trans (h.jobs name j hj)

theorem stable_noService (p : Prop) (name : String) :
    quiet.Stable fun s => p → ∀ u, s.services.get? name ≠ some (some u) :=
  fun _ _ _ ht h hp u hu => h hp u (others_service ht hu)

theorem triple_cleanup (p : Prop) (name : String) (uid : ℕ) :
    quiet.Triple (fun s => p → s.Alive name uid) (cleanup name uid) fun clean s =>
      clean = true → p → s.Alive name uid ∧ s.Unused name uid := by
  have halive := stable_alive p name uid
  have hjob := (triple_deleteJob name).frame halive fun s t _ hsh h hp => hsh.alive (h hp)
  refine Pact.triple_bind (hjob.pre fun s _ h => ⟨trivial, h⟩) fun jobGone => ?_
  have hkeep := (stable_noJob (jobGone = true) name).and halive
  have hservice := (triple_deleteBridgeService name).frame hkeep fun s t _ hsh h =>
    ⟨shrinks_noJob hsh h.1, fun hp => hsh.alive (h.2 hp)⟩
  refine Pact.triple_bind (hservice.pre fun s _ h => ⟨trivial, h⟩) fun serviceGone => ?_
  have hkeep' := (stable_noService (serviceGone = true) name).and hkeep
  refine Pact.triple_bind (triple_kill hkeep' (fun s t _ hsh h =>
    ⟨fun hg u hu => h.1 hg u (hsh.services name u hu), shrinks_noJob hsh h.2.1, fun hp => hsh.alive (h.2.2 hp)⟩) uid)
      fun _ => ?_
  refine Pact.triple_ite (fun hgone => ?_) fun _ => ?_
  · refine Pact.triple_bind (triple_left hkeep' uid) fun left => Pact.triple_pure fun s _ h hempty hp => ?_
    obtain ⟨hj, hs⟩ := Bool.and_eq_true_iff.1 hgone
    exact ⟨h.1.2.2 hp, h.1.2.1 hj, h.1.1 hs, h.2 hempty⟩
  · exact Pact.triple_pure fun s _ _ h => by cases h

theorem patch_cases {s t : Cluster} {name : String} {f : Task → Task} {a : Except ApiError Unit}
    (h : s.patch name f a t) :
    t = s ∨ ∃ task, s.tasks.get? name = some task ∧ t = s.putTask name (f task) := by
  unfold patch at h
  cases ht : s.tasks.get? name with
  | none =>
    rw [ht] at h
    exact .inl (reads_eq h)
  | some task =>
    rw [ht] at h
    rcases h with ⟨rfl, -⟩ | ⟨rfl, -⟩
    · exact .inr ⟨task, rfl, rfl⟩
    · exact .inl rfl

theorem steady_refl (s : Cluster) : Steady s s := shrinks_steady (.refl s)

theorem triple_patch {name : String} {r : Req} {f : Task → Task} {R : Cluster → Prop} (hR : (only name).Stable R)
    (hact : ∀ s a t, act r s a t → t = s ∨ ∃ task, s.tasks.get? name = some task ∧ t = s.putTask name (f task))
    (huid : ∀ task, (f task).uid = task.uid)
    (hkeep : ∀ s task, Sound s → R s → s.tasks.get? name = some task → FINALIZER ∈ task.finalizers →
      FINALIZER ∈ (f task).finalizers ∨ s.Unused name task.uid)
    (hover : ∀ s task, Sound s → R s → s.tasks.get? name = some task → (f task).phase = .succeeded →
      s.Over name task.uid)
    (hphase : ∀ s task, Sound s → R s → s.tasks.get? name = some task → task.phase ∈ TERMINAL → Stays task (f task)) :
    (only name).Triple R (request r) fun _ _ => True := by
  refine triple_request hR fun s a t hs hr ha => ?_
  rcases hact s a t ha with rfl | ⟨task, ht, rfl⟩
  · exact ⟨hs, ⟨steady_refl _, fun _ _ => rfl⟩, fun _ _ => trivial⟩
  · refine ⟨sound_putTask hs ht (huid task) (hkeep s task hs hr ht) (hover s task hs hr ht),
      ⟨steady_putTask ht (huid task) (hphase s task hs hr ht), fun m hm => ?_⟩, fun _ _ => trivial⟩
    exact (get?_putTask s name m (f task)).trans (if_neg hm)

theorem triple_patchStatus {name : String} {phase : CellPhase} {category : Option String} {R : Cluster → Prop}
    (hR : (only name).Stable R)
    (hover : ∀ s task, Sound s → R s → s.tasks.get? name = some task → phase = .succeeded → s.Over name task.uid)
    (hphase : ∀ s task, Sound s → R s → s.tasks.get? name = some task → task.phase ∈ TERMINAL →
      phase = .failed ∧ category = some "invalid_spec") :
    (only name).Triple R (request (.patchStatus name phase category)) fun _ _ => True :=
  triple_patch hR (fun _ _ _ ha => patch_cases ha) (fun _ => rfl) (fun _ _ _ _ _ hf => .inl hf) hover
    fun s task hs hr ht hterm => .inr (by obtain ⟨rfl, rfl⟩ := hphase s task hs hr ht hterm; exact ⟨rfl, rfl⟩)

theorem quiet_only (name : String) {ε α : Type} {R : Cluster → Prop} {x : Code api ε α} {Q : α → Cluster → Prop}
    (h : quiet.Triple R x Q) : (only name).Triple R x Q :=
  h.weaken rfl fun s t _ hsh => ⟨shrinks_steady hsh, fun m _ => by rw [hsh.tasks]⟩

section Ensure

variable {P : Pact api} {R R' : Cluster → Prop}

theorem triple_adoptable (owner : Option ℕ) (expected : ℕ) :
    P.Triple R (adoptable owner expected) fun _ => R :=
  Pact.triple_ite (fun _ => Pact.triple_throw) fun _ => Pact.triple_pure fun _ _ h => h

theorem triple_ensure {reader creator : Req} {owner : reader.Out → Option ℕ} {expected : ℕ} (hR : P.Stable R)
    (hR' : P.Stable R') (hRR' : ∀ s, P.Inv s → R s → R' s)
    (hread : ∀ s a t, P.Inv s → act reader s a t → t = s) (hrefl : ∀ s, P.Guar s s)
    (hcreate : ∀ s a t, P.Inv s → R s → act creator s a t → P.Inv t ∧ P.Guar s t ∧ R' t) :
    P.Triple R (ensure reader creator owner expected) fun _ => R' := by
  have hget : P.Triple R (get reader) fun _ => R := by
    refine triple_get hR fun s a t hs hr ha => ?_
    cases hread s a t hs ha
    exact ⟨hs, hrefl s, fun _ _ => hr, fun _ => hr⟩
  refine Pact.triple_bind hget fun o => ?_
  cases o with
  | some existing => exact (triple_adoptable _ expected).conseq (fun _ _ h => h) fun _ s hs h => hRR' s hs h
  | none =>
    have hsend : P.Triple R (send creator) fun _ => R' := triple_send hR hcreate
    refine Pact.triple_bind hsend fun a => ?_
    cases a with
    | ok x => exact Pact.triple_pure fun _ _ h => h
    | error e =>
      cases e with
      | conflict =>
        have hagain : P.Triple R' (request reader) fun _ => R' := by
          refine triple_request hR' fun s a t hs hr ha => ?_
          cases hread s a t hs ha
          exact ⟨hs, hrefl s, fun _ _ => hr⟩
        exact Pact.triple_bind hagain fun x => triple_adoptable _ expected
      | notFound => exact Pact.triple_throw
      | other => exact Pact.triple_throw

end Ensure

def NoneRunning (s : Cluster) : Prop := ∀ n j, s.jobs.get? n = some j → j.phase ≠ .running

theorem stable_mine (P : Pact api) (name : String) (task : Task) : P.Stable fun s => s.Mine name task :=
  fun _ _ _ ht h => others_mine ht h

theorem stable_noneRunning (P : Pact api) : P.Stable NoneRunning := by
  intro s t _ ht h n j hj hr
  obtain ⟨x, hx, hxr⟩ := others_job ht hj
  exact h n x hx (hxr hr)

theorem shrinks_mine {s t : Cluster} (h : Shrinks s t) {name : String} {task : Task} (hm : s.Mine name task) :
    t.Mine name task := by
  rw [Mine, h.tasks]
  exact hm

theorem mine_phase {s : Cluster} {name : String} {task t : Task} (hm : s.Mine name task)
    (hphase : task.phase ∉ TERMINAL) (ht : s.tasks.get? name = some t) {p : Prop} : t.phase ∈ TERMINAL → p := by
  obtain ⟨x, hx, -, -, hp⟩ := hm
  cases ht.symm.trans hx
  rw [hp]
  exact fun h => absurd h hphase

theorem create_cases {β : Type} {d : PyDict String β} {name : String} {effect s t : Cluster} {a : Except ApiError Unit}
    (h : create d name effect s a t) : t = s ∨ (d.get? name).isSome = false ∧ t = effect := by
  unfold create at h
  split_ifs at h with hd
  · exact .inl (reads_eq h)
  · rcases h with ⟨rfl, -⟩ | ⟨rfl, -⟩
    · exact .inr ⟨by simpa using hd, rfl⟩
    · exact .inl rfl

theorem sound_setService {s : Cluster} (hs : s.Sound) {name : String} {uid : ℕ} (ha : s.Alive name uid)
    (hphase : ∀ t, s.tasks.get? name = some t → t.phase ≠ .succeeded) : (s.setService name (some uid)).Sound := by
  have hget : ∀ n u, (s.setService name (some uid)).services.get? n = some (some u) →
      n = name ∧ u = uid ∨ n ≠ name ∧ s.services.get? n = some (some u) := by
    intro n u hu
    rw [setService, PyDict.get?_set] at hu
    split_ifs at hu with hn
    · cases hu
      exact .inl ⟨hn, rfl⟩
    · exact .inr ⟨hn, hu⟩
  refine ⟨hs.fresh, hs.distinct, hs.jobs, ?_, hs.sandboxes, hs.single, ?_⟩
  · intro n u hu
    rcases hget n u hu with ⟨rfl, rfl⟩ | ⟨-, hu⟩
    · exact ha
    · exact hs.services n u hu
  · intro n t ht hp
    obtain ⟨h₁, h₂, h₃⟩ := hs.succeeded n t ht hp
    refine ⟨h₁, fun u hu => ?_, h₃⟩
    rcases hget n u hu with ⟨rfl, rfl⟩ | ⟨-, hu⟩
    · exact hphase t ht hp
    · exact h₂ u hu

theorem not_succeeded {s : Cluster} {name : String} {task t : Task} (hm : s.Mine name task)
    (hphase : task.phase ∉ TERMINAL) (ht : s.tasks.get? name = some t) : t.phase ≠ .succeeded := by
  intro hp
  exact mine_phase hm hphase ht (by rw [hp]; decide)

theorem triple_startWorker {name : String} {task : Task} (hphase : task.phase ∉ TERMINAL) :
    (only name).Triple (fun s => s.Mine name task ∧ NoneRunning s) (startWorker name task.uid) fun _ s =>
      s.Mine name task := by
  have hstable := (stable_mine (only name) name task).and (stable_noneRunning (only name))
  have hrefl : ∀ s, (only name).Guar s s := fun s => ⟨steady_refl s, fun _ _ => rfl⟩
  have hmap : (only name).Triple (fun s => s.Mine name task ∧ NoneRunning s)
      (ensure (.readConfigMap name) (.createConfigMap name task.uid) id task.uid)
      fun _ s => s.Mine name task ∧ NoneRunning s := by
    refine triple_ensure hstable hstable (fun _ _ h => h) (fun s a t _ ha => reads_eq ha) hrefl fun s a t hs hr ha => ?_
    rcases create_cases ha with rfl | ⟨-, rfl⟩
    · exact ⟨hs, hrefl _, hr⟩
    · refine ⟨⟨hs.fresh, hs.distinct, hs.jobs, hs.services, hs.sandboxes, hs.single, hs.succeeded⟩, ?_, hr⟩
      exact ⟨⟨le_rfl, fun m b hb _ => ⟨b, hb, rfl, fun _ => ⟨.refl _, fun h => h⟩⟩⟩, fun _ _ => rfl⟩
  have hservice : (only name).Triple (fun s => s.Mine name task ∧ NoneRunning s)
      (ensure (.readService name) (.createService name task.uid) id task.uid)
      fun _ s => s.Mine name task ∧ NoneRunning s := by
    refine triple_ensure hstable hstable (fun _ _ h => h) (fun s a t _ ha => reads_eq ha) hrefl fun s a t hs hr ha => ?_
    rcases create_cases ha with rfl | ⟨-, rfl⟩
    · exact ⟨hs, hrefl _, hr⟩
    · refine ⟨sound_setService hs hr.1.alive fun t ht => not_succeeded hr.1 hphase ht, ?_, hr⟩
      exact ⟨⟨le_rfl, fun m b hb _ => ⟨b, hb, rfl, fun _ => ⟨.refl _, fun h => h⟩⟩⟩, fun _ _ => rfl⟩
  have hread : ∀ r : Req, (∀ s a t, act r s a t → t = s) →
      (only name).Triple (fun s => s.Mine name task ∧ NoneRunning s) (get r) fun _ s => s.Mine name task ∧
      NoneRunning s := by
    intro r hact
    refine triple_get hstable fun s a t hs hr ha => ?_
    cases hact s a t ha
    exact ⟨hs, hrefl s, fun _ _ => hr, fun _ => hr⟩
  have hendpoint : (only name).Triple (fun s => s.Mine name task ∧ NoneRunning s) (bridgeEndpoint name)
      fun _ s => s.Mine name task ∧ NoneRunning s := by
    refine Pact.triple_bind (hread _ fun s a t ha => reads_eq ha) fun o => ?_
    cases o with
    | none => exact Pact.triple_throw
    | some _ =>
      have hfound : (only name).Triple (fun s => s.Mine name task ∧ NoneRunning s) (request (.readEndpoint name))
          fun _ s => s.Mine name task ∧ NoneRunning s := by
        refine triple_request hstable fun s a t hs hr ha => ?_
        obtain ⟨rfl, -⟩ := ha
        exact ⟨hs, hrefl _, fun _ _ => hr⟩
      exact Pact.triple_bind hfound fun b => Pact.triple_ite (fun _ => Pact.triple_pure fun _ _ h => h) fun _ =>
        Pact.triple_throw
  refine Pact.triple_bind hmap fun _ => Pact.triple_bind hservice fun _ => Pact.triple_bind hendpoint fun _ => ?_
  refine triple_ensure hstable (stable_mine _ name task) (fun _ _ h => h.1) (fun s a t _ ha => reads_eq ha) hrefl
    fun s a t hs hr ha => ?_
  rcases create_cases ha with rfl | ⟨-, rfl⟩
  · exact ⟨hs, hrefl _, hr.1⟩
  · refine ⟨sound_setJob hs rfl hr.1.alive fun _ =>
      ⟨fun m x _ hx => hr.2 m x hx, fun t ht => not_succeeded hr.1 hphase ht⟩,
      ⟨steady_setJob (.inr fun t ht hterm => mine_phase hr.1 hphase ht hterm), fun _ _ => rfl⟩, hr.1⟩

theorem triple_patchMine {name : String} {task : Task} (hphase : task.phase ∉ TERMINAL) {phase : CellPhase}
    {category : Option String} (hne : phase ≠ .succeeded) :
    (only name).Triple (fun s => s.Mine name task) (request (.patchStatus name phase category)) fun _ _ => True :=
  triple_patchStatus (stable_mine _ name task) (fun _ _ _ _ _ h => absurd h hne)
    fun _ _ _ hm ht => mine_phase hm hphase ht

def Halted (s : Cluster) (name : String) : Prop := ∀ j, s.jobs.get? name = some j → j.phase ≠ .running

theorem stable_halted (P : Pact api) (name : String) : P.Stable fun s => Halted s name := by
  intro s t _ ht h j hj hr
  obtain ⟨x, hx, hxr⟩ := others_job ht hj
  exact h x hx (hxr hr)

theorem shrinks_halted {s t : Cluster} (h : Shrinks s t) {name : String} (hs : Halted s name) : Halted t name :=
  fun j hj => hs j (h.jobs name j hj)

theorem triple_reconcileJob {name : String} {task : Task} (hphase : task.phase ∉ TERMINAL) (p : CellPhase) :
    (only name).Triple (fun s => s.Mine name task ∧ (p = .succeeded → Halted s name)) (reconcileJob name task.uid p)
      fun _ _ => True := by
  have hmine : ∀ s : Cluster, (only name).Inv s → (s.Mine name task ∧ (p = .succeeded → Halted s name)) →
      s.Mine name task :=
    fun _ _ h => h.1
  cases p with
  | succeeded =>
    have hstable : quiet.Stable fun s => s.Mine name task ∧ Halted s name :=
      (stable_mine quiet name task).and (stable_halted quiet name)
    have hkeep : ∀ s t, Sound s → Shrinks s t → s.Mine name task ∧ Halted s name → t.Mine name task ∧ Halted t name :=
      fun s t _ hsh h => ⟨shrinks_mine hsh h.1, shrinks_halted hsh h.2⟩
    have hkill := quiet_only name (triple_kill hstable hkeep task.uid)
    refine Pact.triple_bind (hkill.pre fun s _ h => ⟨h.1, h.2 rfl⟩) fun _ => ?_
    have hservice :=
      quiet_only name ((triple_deleteBridgeService name).frame hstable fun s t hs hsh h => hkeep s t hs hsh h)
    refine Pact.triple_bind (hservice.pre fun s _ h => ⟨trivial, h⟩) fun gone => ?_
    have hleft := quiet_only name (triple_left ((stable_noService (gone = true) name).and hstable) task.uid)
    refine Pact.triple_bind hleft fun left => ?_
    refine Pact.triple_ite (fun _ => ?_) fun hempty => Pact.triple_ite (fun _ => ?_) fun hgone => ?_
    · exact (triple_patchMine hphase (by decide)).pre fun s _ h => h.1.2.1
    · exact (triple_patchMine hphase (by decide)).pre fun s _ h => h.1.2.1
    · rw [not_not] at hempty hgone
      have hover : (only name).Stable fun s => s.Mine name task ∧ s.Over name task.uid :=
        fun s t hs ht h => ⟨others_mine ht h.1, others_over hs ht h.1.alive h.2⟩
      have hpatch : (only name).Triple (fun s => s.Mine name task ∧ s.Over name task.uid)
          (request (.patchStatus name .succeeded none)) fun _ _ => True := by
        refine triple_patchStatus hover (fun s t _ h ht _ => ?_) fun s t _ h ht => mine_phase h.1 hphase ht
        obtain ⟨x, hx, hu, -⟩ := h.1
        cases ht.symm.trans hx
        rw [hu]
        exact h.2
      exact hpatch.pre fun s _ h => ⟨h.1.2.1, h.1.2.2, h.1.1 hgone, h.2 hempty⟩
  | failed =>
    have hkeep : ∀ s t, Sound s → Shrinks s t → s.Mine name task → t.Mine name task := fun s t _ hsh h =>
      shrinks_mine hsh h
    have hkill := quiet_only name (triple_kill (stable_mine quiet name task) hkeep task.uid)
    refine Pact.triple_bind (hkill.pre hmine) fun _ => ?_
    have hservice := quiet_only name ((triple_deleteBridgeService name).frame (stable_mine quiet name task) hkeep)
    refine Pact.triple_bind (hservice.pre fun s _ h => ⟨trivial, h⟩) fun _ => ?_
    exact (triple_patchMine hphase (by decide)).pre fun s _ h => h.2
  | queued => exact (triple_patchMine hphase (by decide)).pre hmine
  | running => exact (triple_patchMine hphase (by decide)).pre hmine
  | cancelled => exact (triple_patchMine hphase (by decide)).pre hmine
  | cleaned => exact (triple_patchMine hphase (by decide)).pre hmine

theorem triple_anotherWorkerActive (name : String) (task : Task) :
    quiet.Triple (fun s => s.Mine name task ∧ (True → s.jobs.get? name = none)) (anotherWorkerActive name)
      fun active s => s.Mine name task ∧ (active = false → NoneRunning s) := by
  have hstable := (stable_mine quiet name task).and (stable_noJob True name)
  have hlist : quiet.Triple (fun s => s.Mine name task ∧ (True → s.jobs.get? name = none)) (request .listJobs)
      fun items s => (s.Mine name task ∧ (True → s.jobs.get? name = none)) ∧ items = s.jobs.entries := by
    refine triple_request hstable fun s a t hs hr ha => ?_
    obtain ⟨rfl, ha⟩ := ha
    refine ⟨hs, .refl _, fun x hx => ⟨hr, ?_⟩⟩
    rcases ha with ha | ha
    · cases ha.symm.trans hx
      rfl
    · cases ha.symm.trans hx
  refine Pact.triple_bind hlist fun items => Pact.triple_pure fun s _ h => ⟨h.1.1, fun hactive n j hj hr => ?_⟩
  obtain ⟨⟨-, hnone⟩, rfl⟩ := h
  have hmem : (n, j) ∈ s.jobs.entries := PyDict.get?_eq_some.1 hj
  have hnot := List.any_eq_false.1 hactive (n, j) hmem
  have hne : n ≠ name := by
    rintro rfl
    cases (hnone trivial).symm.trans hj
  simp [hne, hr] at hnot

theorem triple_reconcileWorker {name : String} {task : Task} (hphase : task.phase ∉ TERMINAL) (allow : Bool) :
    (only name).Triple (fun s => s.Mine name task) (reconcileWorker name task.uid allow) fun _ _ => True := by
  have hget : (only name).Triple (fun s => s.Mine name task) (get (.readJob name)) fun o s =>
      s.Mine name task ∧ s.jobs.get? name = o := by
    refine triple_get (stable_mine _ name task) fun s a t hs hr ha => ?_
    obtain ⟨hts, hsome, hnone⟩ := reads_found ha
    cases hts
    exact ⟨hs, ⟨steady_refl _, fun _ _ => rfl⟩, fun x hx => ⟨hr, hsome x hx⟩, fun hn => ⟨hr, hnone hn⟩⟩
  refine Pact.triple_bind hget fun o => ?_
  cases o with
  | none =>
    have hwaits : (only name).Triple (fun s => s.Mine name task ∧ s.jobs.get? name = none)
        (waitsForSlot name allow)
        fun waits s => s.Mine name task ∧ (waits = false → NoneRunning s) := by
      refine Pact.triple_ite (fun _ => ?_) fun _ => Pact.triple_pure fun s _ h => ⟨h.1, fun h => by cases h⟩
      exact (quiet_only name (triple_anotherWorkerActive name task)).pre fun s _ h => ⟨h.1, fun _ => h.2⟩
    refine Pact.triple_bind hwaits fun waits => Pact.triple_ite (fun _ => ?_) fun hgo => ?_
    · exact Pact.triple_bind ((triple_patchMine hphase (by decide)).pre fun s _ h => h.1) fun _ =>
        Pact.triple_pure fun _ _ h => h
    · have hnone : waits = false := by simpa using hgo
      refine Pact.triple_bind ((triple_startWorker hphase).pre fun s _ h => ⟨h.1, h.2 hnone⟩) fun _ => ?_
      exact Pact.triple_bind (triple_patchMine hphase (by decide)) fun _ => Pact.triple_pure fun _ _ h => h
  | some job =>
    refine Pact.triple_bind ((triple_reconcileJob hphase (Job.phase job)).pre fun s _ h => ⟨h.1, fun hp j hj hr => ?_⟩)
      fun _ => Pact.triple_pure fun _ _ h => h
    cases h.2.symm.trans hj
    cases hp.symm.trans hr

theorem triple_patchFinalizers {name : String} {finalizers : List String} {R : Cluster → Prop}
    (hR : (only name).Stable R) (hkeep : ∀ s task, Sound s → R s → s.tasks.get? name = some task →
      FINALIZER ∈ task.finalizers →
      FINALIZER ∈ finalizers ∨ s.Unused name task.uid) :
    (only name).Triple R (request (.patchFinalizers name finalizers)) fun _ _ => True :=
  triple_patch hR (fun _ _ _ ha => patch_cases ha) (fun _ => rfl) hkeep (fun _ _ hs _ ht hp => hs.succeeded _ _ ht hp)
    fun _ _ _ _ _ _ => .inl ⟨rfl, rfl⟩

theorem triple_reconcile (name : String) (task : Task) (allow : Bool) :
    (only name).Triple (fun s => task.finalizers.contains FINALIZER = true → s.Mine name task)
    (reconcile name task allow)
      fun _ _ => True := by
  have hfalse : ∀ {R : Cluster → Prop}, (only name).Triple R (pure false : Reconcile Bool) fun _ _ => True :=
    Pact.triple_pure fun _ _ _ => trivial
  have hend : ∀ {β : Type} {R : Cluster → Prop} {x : Reconcile β}, (only name).Triple R x (fun _ _ => True) →
      (only name).Triple R (x >>= fun _ => (pure false : Reconcile Bool)) fun _ _ => True :=
    fun h => Pact.triple_bind h fun _ => hfalse
  unfold reconcile
  refine Pact.triple_ite (fun _ => ?_) fun _ => Pact.triple_ite (fun _ => ?_) fun hf => ?_
  · have hclean := quiet_only name (triple_cleanup (task.finalizers.contains FINALIZER = true) name task.uid)
    refine Pact.triple_bind (hclean.pre fun s _ h hf => (h hf).alive) fun clean => ?_
    refine Pact.triple_ite (fun h => hend ?_) fun _ => hfalse
    -- The finalizer goes only when nothing is left of the task.
    obtain ⟨hclean, hf⟩ := Bool.and_eq_true_iff.1 h
    have hstable : (only name).Stable fun s => s.Alive name task.uid ∧ s.Unused name task.uid :=
      fun s t hs ht h => ⟨others_alive ht h.1, others_unused hs ht h.1 h.2⟩
    refine (triple_patchFinalizers hstable fun s t _ h ht _ => .inr ?_).pre fun s _ h => h hclean hf
    obtain ⟨⟨x, hx, hu, -⟩, hunused⟩ := h
    cases ht.symm.trans hx
    rwa [hu]
  · refine hend ?_
    refine (triple_patchFinalizers Pact.stable_true fun s t _ _ _ _ => .inl (by simp)).pre fun _ _ _ => trivial
  · rw [not_not] at hf
    cases validateTask name task.spec with
    | error _ =>
      refine hend ?_
      exact (triple_patchStatus Pact.stable_true (fun _ _ _ _ _ h => by cases h) fun _ _ _ _ _ _ => ⟨rfl, rfl⟩).pre
        fun _ _ _ => trivial
    | ok _ =>
      refine Pact.triple_ite (fun hcancel => ?_) fun _ => Pact.triple_ite (fun _ => hfalse) fun hphase => ?_
      · have hclean := quiet_only name ((triple_cleanup True name task.uid).frame (stable_mine quiet name task)
          fun s t _ hsh h => shrinks_mine hsh h)
        refine Pact.triple_bind (hclean.pre fun s _ h => ⟨fun _ => (h hf).alive, h hf⟩) fun clean => ?_
        have hpatch : ∀ {phase category}, phase ≠ .succeeded → (only name).Triple (fun s => (clean = true → True →
            s.Alive name task.uid ∧ s.Unused name task.uid) ∧ s.Mine name task)
            (request (.patchStatus name phase category))
            fun _ _ => True := fun hne => (triple_patchMine hcancel.2 hne).pre fun s _ h => h.2
        refine Pact.triple_ite (fun _ => ?_) fun _ => ?_
        · exact hend (hpatch (by decide))
        · exact hend (hpatch (by decide))
      · exact (triple_reconcileWorker hphase allow).pre fun s _ h => h hf

def Queued (items : List (String × Task)) (s : Cluster) : Prop :=
  ∀ item ∈ items, item.2.finalizers.contains FINALIZER = true → s.Mine item.1 item.2

theorem only_whole {name : String} {α : Type} {x : Prog api α} {Q : α → Cluster → Prop} {s : Cluster} (hs : Sound s)
    (h : (only name).wp x Q s) : whole.wp x Q s := by
  have hinv : whole.Inv = (only name).Inv := rfl
  have hguar : ∀ s t, (only name).Inv s → (only name).Guar s t → whole.Guar s t := fun _ _ _ hg => hg.1
  exact Pact.wp_weaken hinv hguar hs h

theorem wp_reconcileAll {items : List (String × Task)} (hnd : (items.map Prod.fst).Nodup) (starts : ℕ) :
    ∀ s, Sound s → Queued items s → whole.wp (reconcileAll items starts) (fun _ _ => True) s := by
  induction items generalizing starts with
  | nil => exact fun _ _ _ => trivial
  | cons item items ih =>
    intro s hs hq
    rw [List.map_cons, List.nodup_cons] at hnd
    have hstable : (only item.1).Stable (Queued items) :=
      fun s t _ ht h x hx hf => others_mine ht (h x hx hf)
    have hframe : ∀ s t, Sound s → (only item.1).Guar s t → Queued items s → Queued items t := by
      intro s t _ hg h x hx hf
      have hne : x.1 ≠ item.1 := fun he => hnd.1 (he ▸ List.mem_map_of_mem hx)
      have hmine := h x hx hf
      rwa [Mine, ← hg.2 x.1 hne] at hmine
    have hone := triple_reconcile item.1 item.2 (decide (0 < starts)) s hs (hq item List.mem_cons_self)
    have hrest := Pact.wp_frame hstable hframe hs (fun x hx => hq x (List.mem_cons_of_mem _ hx)) hone
    have hwhole : whole.wp (reconcile item.1 item.2 (decide (0 < starts))).run
        (fun r s => (∀ a, r = .ok a → True) ∧ Queued items s) s := only_whole hs hrest
    apply Pact.wp_bind
    refine Pact.wp_mono (fun r t ht h => ?_) hs hwhole
    cases r with
    | error e => exact ih hnd.2 starts t ht h.2
    | ok b =>
      cases b with
      | false => exact ih hnd.2 starts t ht h.2
      | true => exact ih hnd.2 (starts - 1) t ht h.2

theorem wp_round (maxWorkloadStarts : ℕ) (s : Cluster) (hs : Sound s) :
    whole.wp (round maxWorkloadStarts) (fun _ _ => True) s := by
  have hlist : whole.Triple (fun _ => True) (request .listTasks) fun items t =>
      (items.map Prod.fst).Nodup ∧ Queued items t := by
    refine triple_request Pact.stable_true fun s a t hs _ ha => ?_
    obtain ⟨rfl, ha⟩ := ha
    refine ⟨hs, steady_refl _, fun x hx => ?_⟩
    rcases ha with ha | ha
    · cases ha.symm.trans hx
      refine ⟨t.tasks.nodup, fun item hitem hf => ⟨item.2, PyDict.get?_eq_some.2 hitem, rfl, ?_, rfl⟩⟩
      simpa using hf
    · cases ha.symm.trans hx
  apply Pact.wp_bind
  refine Pact.wp_mono (fun r t ht h => ?_) hs (hlist s hs trivial)
  cases r with
  | error e => trivial
  | ok items => exact wp_reconcileAll (h items rfl).1 maxWorkloadStarts t ht (h items rfl).2

def controller (maxWorkloadStarts : ℕ) : System (Cluster × Prog api Unit) (Option Req) :=
  forever (· = Cluster.empty) (round maxWorkloadStarts)

theorem sound_empty : Sound Cluster.empty where
  fresh := fun n t ht => by cases ht
  distinct := fun n m t t' ht => by cases ht
  jobs := fun n j hj => by cases hj
  services := fun n u hu => by cases hu
  sandboxes := fun u hu => by cases hu
  single := fun n m j j' hj => by cases hj
  succeeded := fun n t ht => by cases ht

theorem whole_start (s : Cluster) (hs : s = Cluster.empty) : whole.Inv s := by
  subst hs
  exact sound_empty

theorem sound_controller {maxWorkloadStarts : ℕ} {c : Cluster × Prog api Unit}
    (h : Reachable (controller maxWorkloadStarts) c) :
    Sound c.1 :=
  (Pact.sound (P := whole) whole_start (wp_round maxWorkloadStarts) h).1

/-- At every moment of every run, whatever the users, the workers and the cluster do between two requests of the
controller and whichever request fails: no two workers run at once, the task that a worker job, a bridge service or a
sandbox belongs to is still there and holds the finalizer, and a task that is called a success has no running worker,
no service and no sandbox. -/
theorem reconciler_safe {maxWorkloadStarts : ℕ} {c : Cluster × Prog api Unit}
    (h : Reachable (controller maxWorkloadStarts) c) :
    (∀ n m j j', c.1.jobs.get? n = some j → c.1.jobs.get? m = some j' → j.phase = .running → j'.phase = .running →
      n = m) ∧
      (∀ n j, c.1.jobs.get? n = some j → ∃ u, j.owner = some u ∧ c.1.Alive n u) ∧
      (∀ n u, c.1.services.get? n = some (some u) → c.1.Alive n u) ∧
      (∀ u ∈ c.1.sandboxes, ∃ n, c.1.Alive n u) ∧
      ∀ n t, c.1.tasks.get? n = some t → t.phase = .succeeded → c.1.Over n t.uid :=
  have hs := sound_controller h
  ⟨hs.single, hs.jobs, hs.services, hs.sandboxes, hs.succeeded⟩

section Started

theorem run_call {k : ℕ} {c : Cluster × Prog api Unit} {ls : List (Option Req)} {s t : Cluster} {p : Prog api Unit}
    (h : Run (controller k) c ls (s, p)) (r : Req) (a : Except ApiError r.Out)
    {f : Except ApiError r.Out → Prog api Unit} (hp : p = .call r f) (ha : Cluster.act r s a t) :
    Run (controller k) c (ls ++ [some r]) (t, f a) := by
  subst hp
  exact h.snoc (.call ha : Step (round k) _ (some r) _)

theorem reachable_call {k : ℕ} {s t : Cluster} {p : Prog api Unit} (h : Reachable (controller k) (s, p)) (r : Req)
    (a : Except ApiError r.Out) {f : Except ApiError r.Out → Prog api Unit} (hp : p = .call r f)
    (ha : Cluster.act r s a t) :
    Reachable (controller k) (t, f a) := by
  obtain ⟨c, ls, hc, hr⟩ := h
  exact ⟨c, _, hc, run_call hr r a hp ha⟩

def pendingTask : Task where
  uid := 0
  finalizers := [FINALIZER]
  deletionTimestamp := false
  spec := ⟨["runRef", "workerImage", "cubeApiURL", "resultHostPath", "experimentSpec"], true, "Running"⟩
  phase := .queued
  errorCategory := none

def withTask (t : Task) : Cluster := { Cluster.empty with tasks := PyDict.set ∅ "run" t, nextUid := 1 }

theorem reachable_created {t : Task} (hu : t.uid = 0) (hd : t.deletionTimestamp = false) (hp : t.phase = .queued) :
    Reachable (controller 1) (withTask t, round 1) := by
  have hstart : Reachable (controller 1) (Cluster.empty, round 1) := .start ⟨rfl, rfl⟩
  have hcreated : Cluster.Others Cluster.empty (withTask t) := .createTask rfl hu hd hp
  exact hstart.step (.others hcreated : Step (round 1) _ none _)

def started : Cluster where
  tasks := PyDict.set ∅ "run" pendingTask
  jobs := PyDict.set ∅ "run" ⟨some 0, 0, 0⟩
  services := PyDict.set ∅ "run" (some 0)
  configMaps := PyDict.set ∅ "run" (some 0)
  sandboxes := []
  nextUid := 1

theorem reachable_started : ∃ p, Reachable (controller 1) (started, p) := by
  have h := reachable_created (t := pendingTask) rfl rfl rfl
  replace h := reachable_call (t := withTask pendingTask) h .listTasks (.ok [("run", pendingTask)]) rfl ⟨rfl, .inl rfl⟩
  replace h := reachable_call (t := withTask pendingTask) h (.readJob "run") (.error .notFound) rfl ⟨rfl, .inl rfl⟩
  replace h := reachable_call (t := withTask pendingTask) h .listJobs (.ok []) rfl ⟨rfl, .inl rfl⟩
  replace h := reachable_call (t := withTask pendingTask) h (.readConfigMap "run") (.error .notFound) rfl
    ⟨rfl, .inl rfl⟩
  replace h := reachable_call h (.createConfigMap "run" 0) (.ok ()) rfl (.inl ⟨rfl, .inl rfl⟩)
  replace h := reachable_call h (.readService "run") (.error .notFound) rfl ⟨rfl, .inl rfl⟩
  replace h := reachable_call h (.createService "run" 0) (.ok ()) rfl (.inl ⟨rfl, .inl rfl⟩)
  replace h := reachable_call h (.readService "run") (.ok (some 0)) rfl ⟨rfl, .inl rfl⟩
  replace h := reachable_call h (.readEndpoint "run") (.ok true) rfl rfl
  replace h := reachable_call h (.readJob "run") (.error .notFound) rfl ⟨rfl, .inl rfl⟩
  exact ⟨_, reachable_call h (.createJob "run" 0) (.ok ()) rfl (.inl ⟨rfl, .inl rfl⟩)⟩

theorem reconciler_safe_started : ∃ u, some 0 = some u ∧ started.Alive "run" u := by
  obtain ⟨p, h⟩ := reachable_started
  exact (reconciler_safe h).2.1 "run" ⟨some 0, 0, 0⟩ rfl

end Started

theorem steady_trans {s t u : Cluster} (hst : Steady s t) (htu : Steady t u) : Steady s u := by
  refine ⟨hst.1.trans htu.1, fun n b hb hlt => ?_⟩
  obtain ⟨a, ha, hab, hterm⟩ := htu.2 n b hb (lt_of_lt_of_le hlt hst.1)
  obtain ⟨x, hx, hxa, hterm'⟩ := hst.2 n a ha (hab ▸ hlt)
  refine ⟨x, hx, hxa.trans hab, fun hx => ?_⟩
  obtain ⟨hstays, hjob⟩ := hterm' hx
  obtain ⟨hstays', hjob'⟩ := hterm (hstays.terminal hx)
  exact ⟨hstays.trans hstays', fun h => hjob' (hjob h)⟩

theorem steady_controller {maxWorkloadStarts : ℕ} {c d : Cluster × Prog api Unit} {l : Option Req}
    (h : Reachable (controller maxWorkloadStarts) c) (hd : (controller maxWorkloadStarts).step c l d) :
    Steady c.1 d.1 := by
  rcases Pact.sound_step (P := whole) whole_start (wp_round maxWorkloadStarts) h hd with ho | hg | he
  · exact others_steady ho
  · exact hg
  · rw [he]
    exact steady_refl _

theorem steady_run {maxWorkloadStarts : ℕ} {c d : Cluster × Prog api Unit} {ls : List (Option Req)}
    (h : Reachable (controller maxWorkloadStarts) c) (hr : Run (controller maxWorkloadStarts) c ls d) :
    Steady c.1 d.1 := by
  induction hr with
  | nil => exact steady_refl _
  | snoc hr hs ih => exact steady_trans ih (steady_controller (h.run hr) hs)

/-- Once a task is over, it stays as it is in every later state of the run, but for a failure when its specification
is made invalid, and no worker is started for it again. -/
theorem terminal_stays {maxWorkloadStarts : ℕ} {c d : Cluster × Prog api Unit} {ls : List (Option Req)}
    (h : Reachable (controller maxWorkloadStarts) c) (hr : Run (controller maxWorkloadStarts) c ls d) {n : String}
    {t t' : Task} (ht : c.1.tasks.get? n = some t) (hphase : t.phase ∈ TERMINAL) (ht' : d.1.tasks.get? n = some t')
    (huid : t'.uid = t.uid) :
    Stays t t' ∧ (c.1.jobs.get? n = none → d.1.jobs.get? n = none) := by
  obtain ⟨a, ha, -, hterm⟩ := (steady_run h hr).2 n t' ht' (huid ▸ (sound_controller h).fresh n t ht)
  cases ht.symm.trans ha
  exact hterm hphase

section Refused

def cancelledTask : Task := { pendingTask with spec := { pendingTask.spec with desiredState := "Cancelled" } }

def cleanedTask : Task := { cancelledTask with phase := .cleaned, errorCategory := some "cancelled" }

def cleaned : Cluster := (withTask cancelledTask).putTask "run" cleanedTask

def editedTask : Task := { cleanedTask with spec := ⟨[], true, "Running"⟩ }

def edited : Cluster := cleaned.putTask "run" editedTask

def refusedTask : Task := { editedTask with phase := .failed, errorCategory := some "invalid_spec" }

def refused : Cluster := edited.putTask "run" refusedTask

theorem reachable_cleaned : Reachable (controller 1) (cleaned, .ret ()) := by
  have h := reachable_created (t := cancelledTask) rfl rfl rfl
  replace h := reachable_call (t := withTask cancelledTask) h .listTasks (.ok [("run", cancelledTask)]) rfl
    ⟨rfl, .inl rfl⟩
  replace h := reachable_call (t := withTask cancelledTask) h (.deleteJob "run") (.error .notFound) rfl ⟨rfl, .inl rfl⟩
  replace h := reachable_call (t := withTask cancelledTask) h (.readJob "run") (.error .notFound) rfl ⟨rfl, .inl rfl⟩
  replace h := reachable_call (t := withTask cancelledTask) h (.deleteService "run") (.error .notFound) rfl
    ⟨rfl, .inl rfl⟩
  replace h := reachable_call (t := withTask cancelledTask) h (.readService "run") (.error .notFound) rfl
    ⟨rfl, .inl rfl⟩
  replace h := reachable_call (t := withTask cancelledTask) h (.killOwnedSandboxes 0) (.ok ()) rfl
    ⟨[], .slnil, fun _ hu => (List.not_mem_nil hu).elim, rfl, .inl rfl⟩
  replace h := reachable_call (t := withTask cancelledTask) h (.listOwnedSandboxes 0) (.ok []) rfl ⟨rfl, .inl rfl⟩
  exact reachable_call h (.patchStatus "run" .cleaned (some "cancelled")) (.ok ()) rfl (.inl ⟨rfl, .inl rfl⟩)

theorem terminal_stays_refused :
    refusedTask.phase = .failed ∧ Stays cleanedTask refusedTask ∧
      (cleaned.jobs.get? "run" = none → refused.jobs.get? "run" = none) := by
  have hedit : Cluster.Others cleaned edited := @Cluster.Others.editTask cleaned "run" cleanedTask editedTask.spec rfl
  have hrun : Run (controller 1) (cleaned, .ret ()) [none] (edited, .ret ()) :=
    .snoc .nil (.others hedit : Step (round 1) _ none _)
  have hround : Run (controller 1) (cleaned, .ret ()) [none, none] (edited, round 1) :=
    hrun.snoc (.again : Step (round 1) _ none _)
  have hlisted := run_call (t := edited) hround .listTasks (.ok [("run", editedTask)]) rfl ⟨rfl, .inl rfl⟩
  have hrefused := run_call (t := refused) hlisted (.patchStatus "run" .failed (some "invalid_spec")) (.ok ()) rfl
    (.inl ⟨rfl, .inl rfl⟩)
  have hover : cleanedTask.phase ∈ TERMINAL := by decide
  exact ⟨rfl, terminal_stays reachable_cleaned hrefused (n := "run") (t := cleanedTask) rfl hover rfl rfl⟩

end Refused

end ClawBox.Cell
