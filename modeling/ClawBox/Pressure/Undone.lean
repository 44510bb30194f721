import ClawBox.Pressure.Control

namespace ClawBox.Pressure

open Transition Raising

@[simp] theorem Settings.get_put_self (x : Settings) (c : Control) (v : ℕ) : (x.put c v).get c = v := by
  cases c <;> rfl

theorem Settings.get_put_ne (x : Settings) {c d : Control} (v : ℕ) (h : d ≠ c) : (x.put c v).get d = x.get d := by
  cases c <;> cases d <;> first | rfl | exact absurd rfl h

theorem Settings.ext_get {x y : Settings} (h : ∀ c, x.get c = y.get c) : x = y := by
  have hl := h .memoryLow
  have hw := h .cpuWeight
  cases x
  cases y
  simp_all [Settings.get]

def VM.Keeps (f : VM → VM) : Prop :=
  ∀ vm, (f vm).session = vm.session ∧ (f vm).role = vm.role ∧ (f vm).group = vm.group ∧ (f vm).saved = vm.saved ∧
    (f vm).modified = vm.modified

def VM.Marks (vm : VM) (c : Control) : Prop := (vm.modified.get? c).isSome

structure SameVMs (w w' : World) : Prop where
  vms : w'.vms = w.vms
  created : w'.created = w.created
  savedOf : w'.savedOf = w.savedOf
  session : ∀ r, (w'.objects r).session = (w.objects r).session
  role : ∀ r, (w'.objects r).role = (w.objects r).role
  group : ∀ r, (w'.objects r).group = (w.objects r).group
  saved : ∀ r, (w'.objects r).saved = (w.objects r).saved
  present : ∀ g, (w'.leaves g).present = (w.leaves g).present

theorem SameVMs.refl (w : World) : SameVMs w w :=
  ⟨rfl, rfl, rfl, fun _ => rfl, fun _ => rfl, fun _ => rfl, fun _ => rfl, fun _ => rfl⟩

theorem SameVMs.trans {w w' w'' : World} (h : SameVMs w w') (h' : SameVMs w' w'') : SameVMs w w'' :=
  ⟨h'.vms.trans h.vms, h'.created.trans h.created, h'.savedOf.trans h.savedOf,
    fun r => (h'.session r).trans (h.session r), fun r => (h'.role r).trans (h.role r),
    fun r => (h'.group r).trans (h.group r), fun r => (h'.saved r).trans (h.saved r),
    fun g => (h'.present g).trans (h.present g)⟩

def World.AtSaved (w : World) (g : String) (c : Control) : Prop :=
  ∃ st, w.savedOf g = some st ∧ (w.leaves g).settings.get c = st.get c

theorem World.AtSaved.same {w w' : World} {g : String} {c : Control} (h : w.AtSaved g c) (hsame : SameVMs w w')
    (hget : (w'.leaves g).settings.get c = (w.leaves g).settings.get c) : w'.AtSaved g c := by
  obtain ⟨st, hst, hv⟩ := h
  exact ⟨st, by rw [hsame.savedOf, hst], hget.trans hv⟩

structure Calm (r : ℕ) (w w' : World) : Prop where
  same : SameVMs w w'
  leaves : ∀ g, g ≠ (w.objects r).group → w'.leaves g = w.leaves g
  objects : ∀ r', r' ≠ r → w'.objects r' = w.objects r'
  settings : ∀ g c, (w'.leaves g).settings.get c = (w.leaves g).settings.get c ∨ w'.AtSaved g c
  marks : ∀ c, (w.objects r).Marks c →
    (w'.objects r).Marks c ∨ (w.leaves (w.objects r).group).present = false ∨ w'.AtSaved (w.objects r).group c

theorem Calm.refl (r : ℕ) (w : World) : Calm r w w :=
  ⟨.refl w, fun _ _ => rfl, fun _ _ => rfl, fun _ _ => .inl rfl, fun _ h => .inl h⟩

theorem Calm.trans {r : ℕ} {w w' w'' : World} (h : Calm r w w') (h' : Calm r w' w'') : Calm r w w'' where
  same := h.same.trans h'.same
  leaves g hg := by
    rw [h'.leaves g (by rwa [h.same.group]), h.leaves g hg]
  objects r' hr' := (h'.objects r' hr').trans (h.objects r' hr')
  settings g c := by
    rcases h'.settings g c with hs | hs
    · rcases h.settings g c with hs' | hs'
      · exact .inl (hs.trans hs')
      · exact .inr (hs'.same h'.same hs)
    · exact .inr hs
  marks c hc := by
    rcases h.marks c hc with hm | hm | hm
    · rcases h'.marks c hm with hm' | hm' | hm'
      · exact .inl hm'
      · rw [h.same.group, h.same.present] at hm'
        exact .inr (.inl hm')
      · rw [h.same.group] at hm'
        exact .inr (.inr hm')
    · exact .inr (.inl hm)
    · rcases h'.settings (w.objects r).group c with hs | hs
      · exact .inr (.inr (hm.same h'.same hs))
      · exact .inr (.inr hs)

def CalmMove (r : ℕ) (w w' : World) : Prop :=
  w.savedOf (w.objects r).group = some (w.objects r).saved → Calm r w w'

theorem World.objects_putVM (w : World) (r r' : ℕ) (vm : VM) :
    (w.putVM r vm).objects r' = if r' = r then vm else w.objects r' := by
  simp [World.putVM, Function.update_apply]

theorem World.leaves_putLeaf (w : World) (g g' : String) (x : Leaf) :
    (w.putLeaf g x).leaves g' = if g' = g then x else w.leaves g' := by
  simp [World.putLeaf, Function.update_apply]

theorem putVM_same {w : World} {r : ℕ} {vm : VM} (hsession : vm.session = (w.objects r).session)
    (hrole : vm.role = (w.objects r).role) (hgroup : vm.group = (w.objects r).group)
    (hsaved : vm.saved = (w.objects r).saved) : SameVMs w (w.putVM r vm) := by
  refine ⟨rfl, rfl, rfl, ?_, ?_, ?_, ?_, fun _ => rfl⟩ <;>
  · intro r'
    rw [World.objects_putVM]
    split_ifs with hr
    · subst hr
      assumption
    · rfl

theorem changeVM_calm (r : ℕ) {f : VM → VM}
    (hf : VM.Keeps f) : Moves (CalmMove r) (changeVM r f) := by
  apply Moves.modify
  intro w _
  obtain ⟨hs, hro, hg, hsa, hm⟩ := hf (w.objects r)
  refine ⟨putVM_same hs hro hg hsa, fun _ _ => rfl, ?_, fun _ _ => .inl rfl, ?_⟩
  · intro r' hr'
    rw [World.objects_putVM, if_neg hr']
  · intro c hc
    left
    simpa [VM.Marks, World.objects_putVM, hm] using hc

theorem writeText_run (g : String) (c : Control) (v : ℕ) (fails : Bool) (w : World) :
    (fails = true ∨ (w.leaves g).present = false) ∧ (writeText g c v fails).run w = (.error .io, w) ∨
      (writeText g c v fails).run w = (.ok (), w.putLeaf g ((w.leaves g).put c v)) := by
  unfold writeText
  rw [run_get_bind, run_ite]
  split_ifs with h
  · exact .inl ⟨h, rfl⟩
  · exact .inr rfl

theorem putLeaf_same (w : World) (g : String) (c : Control) (v : ℕ) :
    SameVMs w (w.putLeaf g ((w.leaves g).put c v)) := by
  refine ⟨rfl, rfl, rfl, fun _ => rfl, fun _ => rfl, fun _ => rfl, fun _ => rfl, ?_⟩
  intro g'
  rw [World.leaves_putLeaf]
  split_ifs with hg
  · subst hg
    rfl
  · rfl

theorem putLeaf_saved {r : ℕ} {c : Control} {w : World}
    (hw : w.savedOf (w.objects r).group = some (w.objects r).saved) :
    Calm r w (w.putLeaf (w.objects r).group
      ((w.leaves (w.objects r).group).put c ((w.objects r).saved.get c))) where
  same := putLeaf_same w _ c _
  leaves g hg := by rw [World.leaves_putLeaf, if_neg hg]
  objects _ _ := rfl
  settings g d := by
    by_cases hg : g = (w.objects r).group
    · subst hg
      by_cases hd : d = c
      · subst hd
        exact .inr ⟨_, hw, by simp [World.leaves_putLeaf, Leaf.put]⟩
      · left
        simp [World.leaves_putLeaf, Leaf.put, Settings.get_put_ne _ _ hd]
    · left
      rw [World.leaves_putLeaf, if_neg hg]
  marks _ h := .inl h

theorem putBack_run (r : ℕ) (c : Control) (fails : Bool) (w : World)
    (hw : w.savedOf (w.objects r).group = some (w.objects r).saved) :
    ∃ w', Calm r w w' ∧ w'.objects = w.objects ∧ (fails = true ∧ (putBack r c fails).run w = (.error .io, w') ∨
      (putBack r c fails).run w = (.ok (), w') ∧
        ((w.leaves (w.objects r).group).present = false ∨ w'.AtSaved (w.objects r).group c)) := by
  unfold putBack
  rw [run_get_bind, run_ite]
  split_ifs with hpresent
  · rcases writeText_run (w.objects r).group c ((w.objects r).saved.get c) fails w with hrun | hrun
    · exact ⟨w, .refl r w, rfl, .inl ⟨by simpa [hpresent] using hrun.1, hrun.2⟩⟩
    · refine ⟨_, putLeaf_saved hw, rfl, .inr ⟨hrun, .inr ⟨_, hw, ?_⟩⟩⟩
      simp [World.leaves_putLeaf, Leaf.put]
  · exact ⟨w, .refl r w, rfl, .inr ⟨rfl, .inl (by simpa using hpresent)⟩⟩

theorem unmark_calm {r : ℕ} {c : Control} {w : World}
    (hback : (w.leaves (w.objects r).group).present = false ∨ w.AtSaved (w.objects r).group c) :
    Calm r w (w.putVM r { w.objects r with modified := (w.objects r).modified.discard c }) where
  same := putVM_same rfl rfl rfl rfl
  leaves _ _ := rfl
  objects r' hr' := by rw [World.objects_putVM, if_neg hr']
  settings _ _ := .inl rfl
  marks d hd := by
    by_cases hdc : d = c
    · subst hdc
      exact .inr hback
    · left
      simpa [VM.Marks, World.objects_putVM, PySet.discard, PyDict.get?_pop_ne _ hdc] using hd

theorem restoreLoop_run (r : ℕ) (fails : Fails) (cs : List Control) (w : World)
    (hw : w.savedOf (w.objects r).group = some (w.objects r).saved) :
    ∃ w', Calm r w w' ∧ ((∃ c e, fails c = true ∧ (restoreLoop r fails cs).run w = (.error e, w')) ∨
      (restoreLoop r fails cs).run w = (.ok (), w') ∧
        ∀ c, (w'.objects r).Marks c ↔ (w.objects r).Marks c ∧ c ∉ cs) := by
  induction cs generalizing w with
  | nil => exact ⟨w, .refl r w, .inr ⟨rfl, by simp⟩⟩
  | cons c cs ih =>
    obtain ⟨w₁, hcalm, hobjects, ⟨hfails, herror⟩ | ⟨hok, hback⟩⟩ := putBack_run r c (fails c) w hw
    · exact ⟨w₁, hcalm, .inl ⟨c, .io, hfails, run_bind_error herror _⟩⟩
    · have hback₁ : (w₁.leaves (w₁.objects r).group).present = false ∨ w₁.AtSaved (w₁.objects r).group c := by
        rw [hcalm.same.group, hcalm.same.present]
        exact hback
      have hcalm₂ := hcalm.trans (unmark_calm hback₁)
      obtain ⟨w', hcalm', hrest⟩ := ih (w₁.putVM r { w₁.objects r with modified := (w₁.objects r).modified.discard c })
        (by rw [hcalm₂.same.savedOf, hcalm₂.same.group, hcalm₂.same.saved, hw])
      refine ⟨w', hcalm₂.trans hcalm', ?_⟩
      have hrun : (restoreLoop r fails (c :: cs)).run w = (restoreLoop r fails cs).run
          (w₁.putVM r { w₁.objects r with modified := (w₁.objects r).modified.discard c }) := run_bind_ok hok _
      rw [hrun]
      rcases hrest with herror | ⟨hok', hmarks⟩
      · exact .inl herror
      · refine .inr ⟨hok', fun d => ?_⟩
        rw [hmarks d]
        by_cases hdc : d = c
        · subst hdc
          simp [VM.Marks, World.objects_putVM, PySet.discard]
        · simp [VM.Marks, World.objects_putVM, PySet.discard, PyDict.get?_pop_ne _ hdc, hobjects, hdc]

theorem VM.cool_keeps (f : ℤ → ℤ) : VM.Keeps (VM.cool f) := by
  intro vm
  unfold VM.cool
  split_ifs <;> exact ⟨rfl, rfl, rfl, rfl, rfl⟩

theorem restore_run (o : Options) (r : ℕ) (now : ℤ) (fails : Fails) (w : World)
    (hw : w.savedOf (w.objects r).group = some (w.objects r).saved) :
    ∃ w', Calm r w w' ∧ ((∃ c e, fails c = true ∧ (restore o r now fails).run w = (.error e, w')) ∨
      (restore o r now fails).run w = (.ok (), w') ∧ ∀ c, ¬(w'.objects r).Marks c) := by
  have hcalm₁ := changeVM_calm r (VM.cool_keeps fun t => max t (now + o.cooldown)) w hw
  obtain ⟨w₁, hw₁⟩ : ∃ w₁, w₁ = ((changeVM r (VM.cool fun t => max t (now + o.cooldown))).run w).2 := ⟨_, rfl⟩
  rw [← hw₁] at hcalm₁
  obtain ⟨w₂, hcalm₂, hloop⟩ := restoreLoop_run r fails (w₁.objects r).modified.keys w₁
    (by rw [hcalm₁.same.savedOf, hcalm₁.same.group, hcalm₁.same.saved, hw])
  have hrun : (restore o r now fails).run w = (restoreLoop r fails (w₁.objects r).modified.keys >>= fun _ =>
      changeVM r fun vm => { vm with actionSince := none }).run w₁ := by
    rw [hw₁]
    rfl
  rcases hloop with ⟨c, e, hfails, herror⟩ | ⟨hok, hmarks⟩
  · exact ⟨w₂, hcalm₁.trans hcalm₂, .inl ⟨c, e, hfails, by rw [hrun, run_bind_error herror]⟩⟩
  · have hcalm := hcalm₁.trans hcalm₂
    have hlast := changeVM_calm r (f := fun vm => { vm with actionSince := none })
      (fun _ => ⟨rfl, rfl, rfl, rfl, rfl⟩) w₂
      (by rw [hcalm.same.savedOf, hcalm.same.group, hcalm.same.saved, hw])
    refine ⟨_, hcalm.trans hlast, .inr ⟨by rw [hrun, run_bind_ok hok]; rfl, ?_⟩⟩
    intro c hc
    have hc' : (w₂.objects r).Marks c := by
      simpa [VM.Marks, changeVM, World.objects_putVM] using hc
    obtain ⟨hmark, hkeys⟩ := (hmarks c).mp hc'
    obtain ⟨u, hu⟩ := Option.isSome_iff_exists.mp hmark
    have hnone := PyDict.get?_eq_none.mpr hkeys
    rw [hu] at hnone
    simp at hnone

structure World.Marked (w : World) : Prop where
  refs : ∀ k r, w.vms.get? k = some r → r < w.created ∧ ((w.objects r).session, (w.objects r).role) = k
  groups : ∀ k k' r r', w.vms.get? k = some r → w.vms.get? k' = some r' →
    (w.objects r).group = (w.objects r').group → r = r'
  saved : ∀ k r, w.vms.get? k = some r →
    w.savedOf (w.objects r).group = some (w.objects r).saved ∧ (w.objects r).saved.low = 0
  marks : ∀ g st c, w.savedOf g = some st → (w.leaves g).present → (w.leaves g).settings.get c ≠ st.get c →
    ∃ k r, w.vms.get? k = some r ∧ (w.objects r).group = g ∧ (w.objects r).Marks c

def World.Restored (w : World) (r : ℕ) : Prop :=
  (w.leaves (w.objects r).group).present → (w.leaves (w.objects r).group).settings = (w.objects r).saved

structure Eases (w w' : World) : Prop where
  same : SameVMs w w'
  settings : ∀ g c, (w'.leaves g).settings.get c = (w.leaves g).settings.get c ∨ w'.AtSaved g c

theorem Eases.refl (w : World) : Eases w w := ⟨.refl w, fun _ _ => .inl rfl⟩

theorem Eases.trans {w w' w'' : World} (h : Eases w w') (h' : Eases w' w'') : Eases w w'' := by
  refine ⟨h.same.trans h'.same, fun g c => ?_⟩
  rcases h'.settings g c with hs | hs
  · rcases h.settings g c with hs' | hs'
    · exact .inl (hs.trans hs')
    · exact .inr (hs'.same h'.same hs)
  · exact .inr hs

variable {w w' : World} {r : ℕ} {k : String × Role}

theorem Calm.eases (h : Calm r w w') : Eases w w' := ⟨h.same, h.settings⟩

theorem World.Marked.same (h : w.Marked) (hsame : SameVMs w w')
    (hmarks : ∀ g st c, w'.savedOf g = some st → (w'.leaves g).present →
      (w'.leaves g).settings.get c ≠ st.get c →
      ∃ k r, w'.vms.get? k = some r ∧ (w'.objects r).group = g ∧ (w'.objects r).Marks c) : w'.Marked where
  refs k r hr := by
    rw [hsame.vms] at hr
    rw [hsame.created, hsame.session, hsame.role]
    exact h.refs k r hr
  groups k k' r r' hr hr' := by
    rw [hsame.vms] at hr hr'
    rw [hsame.group, hsame.group]
    exact h.groups k k' r r' hr hr'
  saved k r hr := by
    rw [hsame.vms] at hr
    rw [hsame.savedOf, hsame.group, hsame.saved]
    exact h.saved k r hr
  marks := hmarks

theorem World.Marked.calm (h : w.Marked) (hc : Calm r w w') : w'.Marked := by
  refine h.same hc.same ?_
  intro g st c hst hpresent hne
  rcases hc.settings g c with hsame | ⟨st', hst', hback⟩
  · rw [hc.same.savedOf] at hst
    rw [hc.same.present] at hpresent
    obtain ⟨k, r₀, hr₀, hgroup, hmark⟩ := h.marks g st c hst hpresent (hsame ▸ hne)
    refine ⟨k, r₀, by rw [hc.same.vms, hr₀], by rw [hc.same.group, hgroup], ?_⟩
    by_cases he : r₀ = r
    · subst he
      rcases hc.marks c hmark with hm | hm | ⟨st', hst', hback⟩
      · exact hm
      · rw [hgroup, hpresent] at hm
        simp at hm
      · rw [hc.same.savedOf, hgroup, hst] at hst'
        obtain rfl := Option.some.inj hst'
        rw [hgroup] at hback
        exact absurd hback hne
    · rw [hc.objects r₀ he]
      exact hmark
  · rw [hst] at hst'
    obtain rfl := Option.some.inj hst'
    exact absurd hback hne

theorem World.Marked.restored (h : w.Marked) (hr : w.vms.get? k = some r) (hm : ∀ c, ¬(w.objects r).Marks c) :
    w.Restored r := by
  intro hpresent
  apply Settings.ext_get
  intro c
  by_contra hne
  obtain ⟨k', r', hr', hgroup, hmark⟩ := h.marks _ _ c (h.saved k r hr).1 hpresent hne
  obtain rfl := h.groups k' k r' r hr' hr hgroup
  exact hm c hmark

theorem World.Restored.eases (hR : w.Restored r) (hst : w.savedOf (w.objects r).group = some (w.objects r).saved)
    (he : Eases w w') : w'.Restored r := by
  unfold World.Restored at hR ⊢
  rw [he.same.group, he.same.present, he.same.saved]
  intro hpresent
  apply Settings.ext_get
  intro c
  rcases he.settings (w.objects r).group c with hs | ⟨st, hst', hs⟩
  · rw [hs, hR hpresent]
  · rw [he.same.savedOf, hst] at hst'
    obtain rfl := Option.some.inj hst'
    exact hs

def EaseMove (k : String × Role) (r : ℕ) (w w' : World) : Prop :=
  w.Marked → w.vms.get? k = some r → w'.Marked ∧ Eases w w'

theorem EaseMove.refl (w : World) : EaseMove k r w w := fun h _ => ⟨h, .refl w⟩

theorem EaseMove.trans (w w' w'' : World) (h : EaseMove k r w w') (h' : EaseMove k r w' w'') : EaseMove k r w w'' := by
  intro hw hr
  obtain ⟨hw', he⟩ := h hw hr
  obtain ⟨hw'', he'⟩ := h' hw' (by rw [he.same.vms, hr])
  exact ⟨hw'', he.trans he'⟩

theorem EaseMove.of_calm (h : CalmMove r w w') : EaseMove k r w w' := by
  intro hw hr
  have hc := h (hw.saved k r hr).1
  exact ⟨hw.calm hc, hc.eases⟩

theorem changeVM_eases {f : VM → VM}
    (hf : VM.Keeps f) : Moves (EaseMove k r) (changeVM r f) :=
  fun w => .of_calm (changeVM_calm r hf w)

theorem restore_eases (o : Options) (now : ℤ) (fails : Fails) : Moves (EaseMove k r) (restore o r now fails) := by
  intro w hw hr
  obtain ⟨w', hcalm, hrun⟩ := restore_run o r now fails w (hw.saved k r hr).1
  have hsnd : ((restore o r now fails).run w).2 = w' := by
    rcases hrun with ⟨c, e, -, hrun⟩ | ⟨hrun, -⟩ <;> rw [hrun]
  rw [hsnd]
  exact ⟨hw.calm hcalm, hcalm.eases⟩

theorem restore_restored {o : Options} {now : ℤ} {fails : Fails} (hw : w.Marked) (hr : w.vms.get? k = some r)
    (hok : (restore o r now fails).run w = (.ok (), w')) :
    w'.Marked ∧ Eases w w' ∧ w'.Restored r ∧ ∀ c, ¬(w'.objects r).Marks c := by
  obtain ⟨w₁, hcalm, hrun⟩ := restore_run o r now fails w (hw.saved k r hr).1
  rcases hrun with ⟨c, e, -, hrun⟩ | ⟨hrun, hmarks⟩
  · rw [hrun] at hok
    simp at hok
  · rw [hrun] at hok
    obtain ⟨-, rfl⟩ := Prod.mk.inj hok
    exact ⟨hw.calm hcalm, hcalm.eases, (hw.calm hcalm).restored (k := k) (by rw [hcalm.same.vms, hr]) hmarks, hmarks⟩

def EaseAll (w w' : World) : Prop := w.Marked → w'.Marked ∧ Eases w w'

theorem EaseAll.refl (w : World) : EaseAll w w := fun h => ⟨h, .refl w⟩

theorem EaseAll.trans (w w' w'' : World) (h : EaseAll w w') (h' : EaseAll w' w'') : EaseAll w w'' := by
  intro hw
  obtain ⟨hw', he⟩ := h hw
  obtain ⟨hw'', he'⟩ := h' hw'
  exact ⟨hw'', he.trans he'⟩

theorem restore_change_eases (o : Options) (now : ℤ) (fails : Fails) {f : VM → VM}
    (hf : VM.Keeps f) :
    Moves (EaseMove k r) (do restore o r now fails; changeVM r f) :=
  Moves.bind EaseMove.trans (restore_eases o now fails) fun _ => changeVM_eases hf

theorem restore_change_restored {o : Options} {now : ℤ} {fails : Fails} {f : VM → VM}
    (hf : VM.Keeps f) (hw : w.Marked) (hr : w.vms.get? k = some r)
    (hok : Raising.run (do restore o r now fails; changeVM r f) w = (.ok (), w')) : w'.Restored r := by
  obtain ⟨_, w₁, hrestore, hchange⟩ := bind_eq_ok hok
  obtain ⟨hw₁, he₁, hres, -⟩ := restore_restored hw hr hrestore
  have hr₁ : w₁.vms.get? k = some r := by rw [he₁.same.vms, hr]
  have he₂ := (changeVM_eases (k := k) hf w₁ hw₁ hr₁).2
  rw [hchange] at he₂
  exact hres.eases (hw₁.saved k r hr₁).1 he₂

theorem VM.renew_keeps (sandbox : String) (t : ℤ) : VM.Keeps (VM.renew sandbox t) :=
  fun _ => ⟨rfl, rfl, rfl, rfl, rfl⟩

theorem VM.phase_keeps (p : Phase) : VM.Keeps fun vm => { vm with phase := p } :=
  fun _ => ⟨rfl, rfl, rfl, rfl, rfl⟩

theorem generation_eases (o : Options) (session : String) (role : Role) (sandbox : String) (now : ℤ) (fails : Fails) :
    Moves EaseAll (generation o session role sandbox now fails) := by
  apply Moves.get_bind
  intro w hw
  cases hr : w.vms.get? (session, role) with
  | none => exact EaseAll.refl w hw
  | some r => exact restore_change_eases o now fails (VM.renew_keeps sandbox _) w hw hr

theorem generation_restored {o : Options} {session : String} {role : Role} {sandbox : String} {now : ℤ} {fails : Fails}
    (hw : w.Marked) (hok : (generation o session role sandbox now fails).run w = (.ok (), w'))
    (hr : w.vms.get? (session, role) = some r) : w'.Restored r := by
  unfold generation at hok
  rw [run_get_bind, hr] at hok
  exact restore_change_restored (VM.renew_keeps sandbox _) hw hr hok

theorem transition_eases (o : Options) (session : String) (role : Role) (now : ℤ) (fails : Fails) :
    Moves EaseAll (transition o session role now fails) := by
  apply Moves.get_bind
  intro w hw
  cases hr : w.vms.get? (session, role) with
  | none => exact EaseAll.refl w hw
  | some r => exact restore_change_eases o now fails (VM.phase_keeps .transition) w hw hr

theorem transition_restored {o : Options} {session : String} {role : Role} {now : ℤ} {fails : Fails}
    (hw : w.Marked) (hok : (transition o session role now fails).run w = (.ok (), w'))
    (hr : w.vms.get? (session, role) = some r) : w'.Restored r := by
  unfold transition at hok
  rw [run_get_bind, hr] at hok
  exact restore_change_restored (VM.phase_keeps .transition) hw hr hok

theorem VM.tell_keeps (kind : Kind) (identifier : String) :
    VM.Keeps fun vm => (vm.tell kind identifier).refresh := by
  intro vm
  cases kind with
  | modelEnd => exact ⟨rfl, rfl, rfl, rfl, rfl⟩
  | modelStart | ready | start | complete =>
    simp only [VM.tell]
    split_ifs <;> exact ⟨rfl, rfl, rfl, rfl, rfl⟩

theorem aside_eases {f : World → World}
    (hf : ∀ w, (f w).leaves = w.leaves ∧ (f w).objects = w.objects ∧ (f w).created = w.created ∧ (f w).vms = w.vms ∧
      (f w).savedOf = w.savedOf) : Moves EaseAll (modify f : Step Unit) := by
  apply Moves.modify
  intro w hw
  obtain ⟨hl, ho, hc, hv, hs⟩ := hf w
  have hsame : SameVMs w (f w) :=
    ⟨hv, hc, hs, fun _ => by rw [ho], fun _ => by rw [ho], fun _ => by rw [ho], fun _ => by rw [ho],
      fun _ => by rw [hl]⟩
  refine ⟨hw.same hsame ?_, hsame, fun g c => .inl (by rw [hl])⟩
  rw [hl, ho, hv, hs]
  exact hw.marks

theorem foresee_eases (r : ℕ) (kind : Kind) (identifier : String) (forecast : Option Forecast) :
    Moves EaseAll (modify (World.foresee r kind identifier forecast) : Step Unit) :=
  aside_eases fun _ => ⟨rfl, rfl, rfl, rfl, rfl⟩

theorem tell_eases (kind : Kind) (identifier : String) :
    Moves (EaseMove k r) (changeVM r fun vm => (vm.tell kind identifier).refresh) :=
  changeVM_eases (VM.tell_keeps kind identifier)

theorem eventRole_eases (o : Options) (session : String) (kind : Kind) (identifier : String) (now : ℤ)
    (forecast : Option Forecast) (role : Role) (fails : Fails) :
    Moves EaseAll (eventRole o session kind identifier now forecast role fails) := by
  apply Moves.get_bind
  intro w hw
  cases hr : w.vms.get? (session, role) with
  | none => exact EaseAll.refl w hw
  | some r =>
    have hforecast : Moves (EaseMove (session, role) r)
        (modify (World.foresee r kind identifier forecast) : Step Unit) :=
      fun w hw _ => foresee_eases r kind identifier forecast w hw
    refine Moves.bind EaseMove.trans hforecast (fun _ => ?_) w hw hr
    refine Moves.bind EaseMove.trans (tell_eases kind identifier) fun _ => ?_
    exact Moves.ite (restore_eases o now fails) (Moves.pure EaseMove.refl ())

theorem event_eases (o : Options) (session : String) (kind : Kind) (identifier : String) (now : ℤ)
    (forecast : Option Forecast) (fails : Role → Fails) :
    Moves EaseAll (event o session kind identifier now forecast fails) :=
  Moves.bind EaseAll.trans (eventRole_eases o session kind identifier now forecast .runtime _)
    fun _ => eventRole_eases o session kind identifier now forecast .tool _

theorem eventRole_restored {o : Options} {session : String} {kind : Kind} {identifier : String} {now : ℤ}
    {forecast : Option Forecast} {role : Role} {fails : Fails} (hk : kind = .complete ∨ kind = .modelEnd)
    (hw : w.Marked) (hok : (eventRole o session kind identifier now forecast role fails).run w = (.ok (), w'))
    (hr : w.vms.get? (session, role) = some r) : w'.Restored r := by
  unfold eventRole at hok
  simp only [run_get_bind, hr, run_modify_bind] at hok
  obtain ⟨_, w₂, htell, hrestore⟩ := bind_eq_ok hok
  rw [if_pos hk] at hrestore
  have h₁ := foresee_eases r kind identifier forecast w hw
  have h₂ := tell_eases (k := (session, role)) (r := r) kind identifier _ h₁.1 hr
  simp only [run_modify] at h₂
  rw [htell] at h₂
  exact (restore_restored h₂.1 (by rw [h₂.2.same.vms]; exact hr) hrestore).2.2.1

theorem event_restored {o : Options} {session : String} {kind : Kind} {identifier : String} {now : ℤ}
    {forecast : Option Forecast} {role : Role} {fails : Role → Fails} (hk : kind = .complete ∨ kind = .modelEnd)
    (hw : w.Marked) (hok : (event o session kind identifier now forecast fails).run w = (.ok (), w'))
    (hr : w.vms.get? (session, role) = some r) : w'.Restored r := by
  obtain ⟨_, w₁, hruntime, htool⟩ := bind_eq_ok hok
  have h₁ := eventRole_eases o session kind identifier now forecast .runtime (fails .runtime) w hw
  rw [hruntime] at h₁
  have hr₁ : w₁.vms.get? (session, role) = some r := by rw [h₁.2.same.vms, hr]
  have h₂ := eventRole_eases o session kind identifier now forecast .tool (fails .tool) w₁ h₁.1
  rw [htool] at h₂
  cases role with
  | runtime => exact (eventRole_restored hk hw hruntime hr).eases (h₁.1.saved _ r hr₁).1 h₂.2
  | tool => exact eventRole_restored hk h₁.1 htool hr₁

theorem restoreIfKept_eases (o : Options) (now : ℤ) (fails : Fails) : Moves EaseAll (restoreIfKept o r now fails) := by
  apply Moves.get_bind
  intro w hw
  rw [run_ite]
  split_ifs with hkept
  · exact EaseAll.refl w hw
  · exact restore_eases o now fails w hw (not_not.mp hkept)

theorem restoreIfKept_restored {o : Options} {now : ℤ} {fails : Fails} (hw : w.Marked)
    (hok : (restoreIfKept o r now fails).run w = (.ok (), w')) (hr : w.vms.get? k = some r) : w'.Restored r := by
  have hkey := (hw.refs k r hr).2
  unfold restoreIfKept at hok
  rw [run_get_bind, run_ite, hkey, if_neg (not_not.mpr hr)] at hok
  exact (restore_restored hw hr hok).2.2.1

theorem register_run (o : Options) (x : Registration) (now : ℤ) (fails : Fails) (psiMissing readFails : Bool)
    (hw : w.Marked) :
    ∃ w₁, w₁.Marked ∧ Eases w w₁ ∧
      ((∃ e, (register o x now fails psiMissing readFails).run w = (.error e, w₁)) ∨
        (register o x now fails psiMissing readFails).run w =
            (.ok (), enter x (w₁.leaves x.group).settings (w.vms.get? (x.session, x.role)) w₁) ∧
          (w₁.leaves x.group).settings.low = 0 ∧
          ∀ r, w.vms.get? (x.session, x.role) = some r → ∀ c, ¬(w₁.objects r).Marks c) := by
  have hprevious : ∃ w₁, w₁.Marked ∧ Eases w w₁ ∧
      ((∃ e, (restorePrevious o (w.vms.get? (x.session, x.role)) now fails).run w = (.error e, w₁)) ∨
        (restorePrevious o (w.vms.get? (x.session, x.role)) now fails).run w = (.ok (), w₁) ∧
          ∀ r, w.vms.get? (x.session, x.role) = some r → ∀ c, ¬(w₁.objects r).Marks c) := by
    cases hr : w.vms.get? (x.session, x.role) with
    | none => exact ⟨w, hw, .refl w, .inr ⟨rfl, by simp⟩⟩
    | some r =>
      obtain ⟨w₁, hcalm, hrun⟩ := restore_run o r now fails w (hw.saved _ r hr).1
      refine ⟨w₁, hw.calm hcalm, hcalm.eases, ?_⟩
      rcases hrun with ⟨c, e, -, hrun⟩ | ⟨hrun, hmarks⟩
      · exact .inl ⟨e, hrun⟩
      · refine .inr ⟨hrun, ?_⟩
        intro r' hr'
        obtain rfl := Option.some.inj hr'
        exact hmarks
  obtain ⟨w₁, hw₁, he, hrun⟩ := hprevious
  refine ⟨w₁, hw₁, he, ?_⟩
  unfold register
  rw [run_get_bind]
  dsimp only
  rcases hrun with ⟨e, hrun⟩ | ⟨hrun, hmarks⟩
  · exact .inl ⟨e, run_bind_error hrun _⟩
  · rw [run_bind_ok hrun, run_ite]
    split_ifs with hpsi
    · exact .inl ⟨_, rfl⟩
    · rw [run_get_bind, run_ite, run_ite, run_ite]
      split_ifs with hread hidle hdefault
      · exact .inl ⟨_, rfl⟩
      · exact .inl ⟨_, rfl⟩
      · exact .inl ⟨_, rfl⟩
      · refine .inr ⟨rfl, ?_, hmarks⟩
        simp only [not_or, ne_eq, not_not] at hdefault
        rw [hdefault.1]
        rfl

section Enter

variable {x : Registration} {st : Settings}

def entered (x : Registration) (w : World) : ℕ := (w.vms.get? (x.session, x.role)).getD w.created

theorem enter_objects_ne (hr : r ≠ entered x w) :
    (enter x st (w.vms.get? (x.session, x.role)) w).objects r = w.objects r := by
  simp only [enter]
  rw [Function.update_of_ne]
  exact hr

theorem enter_object :
    let vm := (enter x st (w.vms.get? (x.session, x.role)) w).objects (entered x w)
    vm.group = x.group ∧ vm.saved = st := by
  simp only [enter, entered, Function.update_self]
  cases w.vms.get? (x.session, x.role) <;> exact ⟨rfl, rfl⟩

theorem ne_entered (hw : w.Marked) (hr : w.vms.get? k = some r) (hk : k ≠ (x.session, x.role)) : r ≠ entered x w := by
  intro he
  unfold entered at he
  cases hp : w.vms.get? (x.session, x.role) with
  | none =>
    rw [hp, Option.getD_none] at he
    have := (hw.refs k r hr).1
    omega
  | some r' =>
    rw [hp, Option.getD_some] at he
    subst he
    exact hk ((hw.refs k r hr).2.symm.trans (hw.refs _ r hp).2)

theorem enter_marked (hw : w.Marked) (hst : (w.leaves x.group).settings = st) (hlow : st.low = 0)
    (hfresh : ∀ k r, w.vms.get? k = some r → k ≠ (x.session, x.role) → (w.objects r).group ≠ x.group)
    (hmarks : ∀ r, w.vms.get? (x.session, x.role) = some r → ∀ c, ¬(w.objects r).Marks c) :
    (enter x st (w.vms.get? (x.session, x.role)) w).Marked := by
  have hget : ∀ k r, (enter x st (w.vms.get? (x.session, x.role)) w).vms.get? k = some r →
      k = (x.session, x.role) ∧ r = entered x w ∨ k ≠ (x.session, x.role) ∧ w.vms.get? k = some r := by
    intro k r hr
    simp only [enter, PyDict.get?_set] at hr
    split_ifs at hr with hk
    · exact .inl ⟨hk, (Option.some.inj hr).symm⟩
    · exact .inr ⟨hk, hr⟩
  have hsaved : ∀ g, g ≠ x.group → (enter x st (w.vms.get? (x.session, x.role)) w).savedOf g = w.savedOf g := by
    intro g hg
    simp [enter, hg]
  refine ⟨?_, ?_, ?_, ?_⟩
  · intro k r hr
    rcases hget k r hr with ⟨rfl, rfl⟩ | ⟨hk, hr⟩
    · simp only [enter, entered, Function.update_self]
      cases hp : w.vms.get? (x.session, x.role) with
      | none => simp
      | some r => simpa using hw.refs _ r hp
    · rw [enter_objects_ne (ne_entered hw hr hk)]
      refine ⟨?_, (hw.refs k r hr).2⟩
      have := (hw.refs k r hr).1
      simp only [enter]
      split_ifs <;> omega
  · intro k k' r r' hr hr' hgroup
    rcases hget k r hr with ⟨rfl, rfl⟩ | ⟨hk, hr⟩
    · rcases hget k' r' hr' with ⟨rfl, rfl⟩ | ⟨hk', hr'⟩
      · rfl
      · rw [enter_object.1, enter_objects_ne (ne_entered hw hr' hk')] at hgroup
        exact absurd hgroup.symm (hfresh k' r' hr' hk')
    · rcases hget k' r' hr' with ⟨rfl, rfl⟩ | ⟨hk', hr'⟩
      · rw [enter_object.1, enter_objects_ne (ne_entered hw hr hk)] at hgroup
        exact absurd hgroup (hfresh k r hr hk)
      · rw [enter_objects_ne (ne_entered hw hr hk), enter_objects_ne (ne_entered hw hr' hk')] at hgroup
        exact hw.groups k k' r r' hr hr' hgroup
  · intro k r hr
    rcases hget k r hr with ⟨rfl, rfl⟩ | ⟨hk, hr⟩
    · rw [enter_object.1, enter_object.2]
      exact ⟨by simp [enter], hlow⟩
    · rw [enter_objects_ne (ne_entered hw hr hk), hsaved _ (hfresh k r hr hk)]
      exact hw.saved k r hr
  · intro g st' c hst' hpresent hne
    by_cases hg : g = x.group
    · subst hg
      simp only [enter, Function.update_self, Option.some.injEq] at hst'
      subst hst'
      exact absurd (congrArg (Settings.get · c) hst) hne
    · rw [hsaved g hg] at hst'
      obtain ⟨k, r, hr, hgroup, hmark⟩ := hw.marks g st' c hst' hpresent hne
      have hk : k ≠ (x.session, x.role) := by
        rintro rfl
        exact hmarks r hr c hmark
      refine ⟨k, r, ?_, ?_, ?_⟩
      · simp only [enter]
        rw [PyDict.get?_set_ne _ _ hk, hr]
      · rw [enter_objects_ne (ne_entered hw hr hk), hgroup]
      · rw [enter_objects_ne (ne_entered hw hr hk)]
        exact hmark

end Enter

def World.without (w : World) (k : String × Role) : World := { w with vms := w.vms.pop k }

theorem restorePrevious_run (o : Options) (now : ℤ) {fails : Fails} (hfails : ∀ c, fails c = false) (hw : w.Marked) :
    ∃ w', (restorePrevious o (w.vms.get? k) now fails).run (w.without k) = (.ok (), w') ∧
      Eases (w.without k) w' ∧ w'.Marked ∧ (∀ r, w.vms.get? k = some r → w'.Restored r) ∧
      ∀ g, (∀ r, w.vms.get? k = some r → (w.objects r).group ≠ g) → w'.leaves g = w.leaves g := by
  have hsub : ∀ k' r, (w.without k).vms.get? k' = some r → w.vms.get? k' = some r ∧ k' ≠ k := by
    intro k' r hr
    simp only [World.without, PyDict.get?_pop] at hr
    split_ifs at hr with hk
    exact ⟨hr, hk⟩
  have hpop : ∀ w' : World, SameVMs (w.without k) w' →
      (∀ g st c, w'.savedOf g = some st → (w'.leaves g).present → (w'.leaves g).settings.get c ≠ st.get c →
        ∃ k r, w'.vms.get? k = some r ∧ (w'.objects r).group = g ∧ (w'.objects r).Marks c) → w'.Marked := by
    intro w' hsame hmarks
    refine ⟨?_, ?_, ?_, hmarks⟩
    · intro k' r hr
      rw [hsame.vms] at hr
      rw [hsame.created, hsame.session, hsame.role]
      exact hw.refs k' r (hsub k' r hr).1
    · intro k₁ k₂ r₁ r₂ h₁ h₂
      rw [hsame.vms] at h₁ h₂
      rw [hsame.group, hsame.group]
      exact hw.groups k₁ k₂ r₁ r₂ (hsub _ _ h₁).1 (hsub _ _ h₂).1
    · intro k' r hr
      rw [hsame.vms] at hr
      rw [hsame.savedOf, hsame.group, hsame.saved]
      exact hw.saved k' r (hsub k' r hr).1
  cases hr : w.vms.get? k with
  | none =>
    have hsame : (w.without k) = w := by
      unfold World.without
      rw [PyDict.pop_of_get?_none hr]
    rw [hsame]
    exact ⟨w, rfl, .refl w, hw, by simp, fun _ _ => rfl⟩
  | some r =>
    obtain ⟨w', hcalm, hrun⟩ := restore_run o r now fails (w.without k) (hw.saved k r hr).1
    rcases hrun with ⟨c, e, hc, -⟩ | ⟨hrun, hmarks⟩
    · simp [hfails c] at hc
    · have hw' : w'.Marked := by
        refine hpop w' hcalm.same ?_
        intro g st c hst hpresent hne
        rcases hcalm.settings g c with hsame | ⟨st', hst', hback⟩
        · rw [hcalm.same.savedOf] at hst
          rw [hcalm.same.present] at hpresent
          obtain ⟨k₀, r₀, hr₀, hgroup, hmark⟩ := hw.marks g st c hst hpresent (hsame ▸ hne)
          by_cases he : r₀ = r
          · subst he
            rcases hcalm.marks c hmark with hm | hm | ⟨st', hst', hback⟩
            · exact absurd hm (hmarks c)
            · have hg : ((w.without k).objects r₀).group = g := hgroup
              rw [hg, hpresent] at hm
              simp at hm
            · have hg : ((w.without k).objects r₀).group = g := hgroup
              rw [hcalm.same.savedOf, hg, hst] at hst'
              obtain rfl := Option.some.inj hst'
              rw [hg] at hback
              exact absurd hback hne
          · have hk₀ : k₀ ≠ k := by
              rintro rfl
              rw [hr] at hr₀
              exact he (Option.some.inj hr₀).symm
            refine ⟨k₀, r₀, ?_, ?_, ?_⟩
            · rw [hcalm.same.vms]
              simp only [World.without]
              rw [PyDict.get?_pop_ne _ hk₀, hr₀]
            · rw [hcalm.same.group]
              exact hgroup
            · rw [hcalm.objects r₀ he]
              exact hmark
        · rw [hst] at hst'
          obtain rfl := Option.some.inj hst'
          exact absurd hback hne
      refine ⟨w', hrun, hcalm.eases, hw', ?_, ?_⟩
      · intro r' hr'
        obtain rfl := Option.some.inj hr'
        intro hpresent
        apply Settings.ext_get
        intro c
        by_contra hne
        have hst : w'.savedOf (w'.objects r).group = some (w'.objects r).saved := by
          rw [hcalm.same.savedOf, hcalm.same.group, hcalm.same.saved]
          exact (hw.saved k r hr).1
        obtain ⟨k₀, r₀, hr₀, hgroup, -⟩ := hw'.marks _ _ c hst hpresent hne
        rw [hcalm.same.vms] at hr₀
        rw [hcalm.same.group, hcalm.same.group] at hgroup
        obtain ⟨hr₀', hk₀⟩ := hsub k₀ r₀ hr₀
        obtain rfl := hw.groups k₀ k r₀ r hr₀' hr hgroup
        exact hk₀ ((hw.refs k₀ r₀ hr₀').2.symm.trans (hw.refs k r₀ hr).2)
      · intro g hg
        exact hcalm.leaves g (fun h => hg r rfl h.symm)

end ClawBox.Pressure
