import ClawBox.Pressure.Undone

namespace ClawBox.Pressure

open Transition Raising

variable {w w' : World} {r : ℕ} {k : String × Role} {o : Options} {p : Poll} {x : Glance}

structure Granted (r : ℕ) (w w' : World) : Prop where
  same : SameVMs w w'
  leaves : ∀ g, g ≠ (w.objects r).group → w'.leaves g = w.leaves g
  objects : ∀ r', r' ≠ r → w'.objects r' = w.objects r'
  settings : ∀ c, (w'.leaves (w.objects r).group).settings.get c = (w.leaves (w.objects r).group).settings.get c ∨
    (w'.objects r).Marks c
  marks : ∀ c, (w.objects r).Marks c → (w'.objects r).Marks c

theorem Granted.refl (r : ℕ) (w : World) : Granted r w w :=
  ⟨.refl w, fun _ _ => rfl, fun _ _ => rfl, fun _ => .inl rfl, fun _ h => h⟩

theorem Granted.trans {w'' : World} (h : Granted r w w') (h' : Granted r w' w'') : Granted r w w'' where
  same := h.same.trans h'.same
  leaves g hg := by rw [h'.leaves g (by rwa [h.same.group]), h.leaves g hg]
  objects r' hr' := (h'.objects r' hr').trans (h.objects r' hr')
  settings c := by
    have hs := h'.settings c
    rw [h.same.group] at hs
    rcases hs with hs | hs
    · rcases h.settings c with hs' | hs'
      · exact .inl (hs.trans hs')
      · exact .inr (h'.marks c hs')
    · exact .inr hs
  marks c hc := h'.marks c (h.marks c hc)

theorem World.Marked.granted (h : w.Marked) (hr : w.vms.get? k = some r) (hg : Granted r w w') : w'.Marked := by
  refine h.same hg.same ?_
  intro g st c hst hpresent hne
  rw [hg.same.savedOf] at hst
  rw [hg.same.present] at hpresent
  have hold : (w.leaves g).settings.get c ≠ st.get c →
      ∃ k r, w'.vms.get? k = some r ∧ (w'.objects r).group = g ∧ (w'.objects r).Marks c := by
    intro hne'
    obtain ⟨k₀, r₀, hr₀, hgroup, hmark⟩ := h.marks g st c hst hpresent hne'
    refine ⟨k₀, r₀, by rw [hg.same.vms, hr₀], by rw [hg.same.group, hgroup], ?_⟩
    by_cases he : r₀ = r
    · subst he
      exact hg.marks c hmark
    · rw [hg.objects r₀ he]
      exact hmark
  by_cases hgroup : g = (w.objects r).group
  · subst hgroup
    rcases hg.settings c with hs | hs
    · exact hold (hs ▸ hne)
    · exact ⟨k, r, by rw [hg.same.vms, hr], hg.same.group r, hs⟩
  · exact hold (hg.leaves g hgroup ▸ hne)

theorem changeVM_granted {f : VM → VM} (hf : VM.Keeps f) (w : World) : Granted r w ((changeVM r f).run w).2 := by
  obtain ⟨hs, hro, hg, hsa, hm⟩ := hf (w.objects r)
  refine ⟨putVM_same hs hro hg hsa, fun _ _ => rfl, ?_, fun _ => .inl rfl, ?_⟩
  · intro r' hr'
    simp [changeVM, World.objects_putVM, hr']
  · intro c hc
    simpa [VM.Marks, changeVM, World.objects_putVM, hm] using hc

theorem mark_granted (r : ℕ) (c : Control) (w : World) :
    Granted r w (w.putVM r { w.objects r with modified := (w.objects r).modified.add c }) ∧
      ((w.putVM r { w.objects r with modified := (w.objects r).modified.add c }).objects r).Marks c := by
  refine ⟨⟨putVM_same rfl rfl rfl rfl, fun _ _ => rfl, ?_, fun _ => .inl rfl, ?_⟩, ?_⟩
  · intro r' hr'
    rw [World.objects_putVM, if_neg hr']
  · intro d hd
    by_cases hdc : d = c
    · subst hdc
      simp [VM.Marks, World.objects_putVM, PySet.add]
    · simpa [VM.Marks, World.objects_putVM, PySet.add, PyDict.get?_set_ne _ _ hdc] using hd
  · simp [VM.Marks, World.objects_putVM, PySet.add]

theorem write_granted {c : Control} (v : ℕ) (hm : (w.objects r).Marks c) :
    Granted r w (w.putLeaf (w.objects r).group ((w.leaves (w.objects r).group).put c v)) := by
  refine ⟨putLeaf_same w _ c v, ?_, fun _ _ => rfl, ?_, fun _ h => h⟩
  · intro g hg
    rw [World.leaves_putLeaf, if_neg hg]
  · intro d
    by_cases hdc : d = c
    · subst hdc
      exact .inr hm
    · left
      simp [World.leaves_putLeaf, Leaf.put, Settings.get_put_ne _ _ hdc]

theorem apply_run (r : ℕ) (c : Control) (v : ℕ) (x : Glance) (w : World) :
    ∃ w', Granted r w w' ∧
      (∀ d, d ≠ c → (w'.leaves (w.objects r).group).settings.get d = (w.leaves (w.objects r).group).settings.get d) ∧
      ((∃ e, (apply r c v x).run w = (.error e, w')) ∨
        (apply r c v x).run w = (.ok (), w') ∧ (w'.leaves (w.objects r).group).settings.get c = v) := by
  unfold apply
  rw [run_get_bind, run_ite, run_ite]
  split_ifs with hread heq
  · exact ⟨w, .refl r w, fun _ _ => rfl, .inl ⟨_, rfl⟩⟩
  · exact ⟨w, .refl r w, fun _ _ => rfl, .inr ⟨rfl, heq⟩⟩
  · obtain ⟨hgranted, hmark⟩ := mark_granted r c w
    have hgroup := hgranted.same.group r
    have hrun : ∀ y : Step Unit, (changeVM r (fun vm => { vm with modified := vm.modified.add c }) >>= fun _ => y).run
      w =
        y.run (w.putVM r { w.objects r with modified := (w.objects r).modified.add c }) := fun _ => rfl
    rw [hrun]
    rcases writeText_run (w.objects r).group c v (x.writeFails c)
      (w.putVM r { w.objects r with modified := (w.objects r).modified.add c }) with ⟨-, hw⟩ | hw
    · exact ⟨_, hgranted, fun _ _ => rfl, .inl ⟨_, hw⟩⟩
    · have hwrite := write_granted v hmark
      rw [hgroup] at hwrite
      refine ⟨_, hgranted.trans hwrite, ?_, .inr ⟨hw, ?_⟩⟩
      · intro d hd
        simp [World.leaves_putLeaf, Leaf.put, Settings.get_put_ne _ _ hd, World.putVM]
      · simp [World.leaves_putLeaf, Leaf.put]

theorem VM.act_keeps (o : Options) (began : ℤ) (low weight : ℕ) : VM.Keeps (VM.act o began low weight) := by
  intro vm
  unfold VM.act
  split_ifs <;> exact ⟨rfl, rfl, rfl, rfl, rfl⟩

theorem grant_run (o : Options) (p : Poll) (r : ℕ) (x : Glance) (w : World) :
    ∃ w', Granted r w w' ∧ ((∃ e, (grant o p r x).run w = (.error e, w')) ∨
      (grant o p r x).run w = (.ok (leftAfter o p r x w), w') ∧
        (w'.leaves (w.objects r).group).settings = ⟨lowFor o p x, weightFor o p r x w⟩) := by
  unfold grant
  rw [run_get_bind, run_ite]
  split_ifs with hmems
  · exact ⟨w, .refl r w, .inl ⟨_, rfl⟩⟩
  · obtain ⟨w₁, hg₁, -, herror | ⟨hok₁, hlow⟩⟩ := apply_run r .memoryLow (lowFor o p x) x w
    · exact ⟨w₁, hg₁, .inl ⟨_, run_bind_error herror.choose_spec _⟩⟩
    · rw [run_bind_ok hok₁]
      obtain ⟨w₂, hg₂, hkeep, herror | ⟨hok₂, hweight⟩⟩ := apply_run r .cpuWeight (weightFor o p r x w) x w₁
      · exact ⟨w₂, hg₁.trans hg₂, .inl ⟨_, run_bind_error herror.choose_spec _⟩⟩
      · have hact := changeVM_granted (r := r) (VM.act_keeps o p.began (lowFor o p x) (weightFor o p r x w)) w₂
        refine ⟨_, (hg₁.trans hg₂).trans hact, .inr ⟨?_, ?_⟩⟩
        · exact (run_bind_ok hok₂ _).trans rfl
        · rw [hg₁.same.group] at hkeep hweight
          apply Settings.ext_get
          intro c
          cases c with
          | memoryLow => exact (hkeep .memoryLow (by simp)).trans hlow
          | cpuWeight => exact hweight

def lowOf (w : World) (r : ℕ) : ℤ :=
  if (w.leaves (w.objects r).group).present then (w.leaves (w.objects r).group).settings.low else 0

def boostOf (w : World) (r : ℕ) : ℤ :=
  if (w.leaves (w.objects r).group).present ∧
    (w.leaves (w.objects r).group).settings.weight ≠ (w.objects r).saved.weight then 1 else 0

theorem lowOf_nonneg (w : World) (r : ℕ) : 0 ≤ lowOf w r := by
  unfold lowOf
  split_ifs <;> omega

theorem boostOf_nonneg (w : World) (r : ℕ) : 0 ≤ boostOf w r := by
  unfold boostOf
  split_ifs <;> omega

theorem World.Restored.lowOf_eq (h : w.Restored r) (hlow : (w.objects r).saved.low = 0) : lowOf w r = 0 := by
  unfold lowOf
  split_ifs with hpresent
  · rw [h hpresent, hlow]
    rfl
  · rfl

theorem World.Restored.boostOf_eq (h : w.Restored r) : boostOf w r = 0 := by
  unfold boostOf
  rw [if_neg]
  rintro ⟨hpresent, hne⟩
  exact hne (by rw [h hpresent])

structure Takes (o : Options) (p : Poll) (r : ℕ) (w' : World) (left : Left) : Prop where
  low : lowOf w' r + left.protection ≤ p.left.protection
  boosts : boostOf w' r + left.boosts ≤ p.left.boosts

theorem takes_of_restored (h : w.Restored r) (hlow : (w.objects r).saved.low = 0) : Takes o p r w p.left :=
  ⟨by rw [h.lowOf_eq hlow]; omega, by rw [h.boostOf_eq]; omega⟩

theorem takes_of_grant (hg : Granted r w w')
    (hs : (w'.leaves (w.objects r).group).settings = ⟨lowFor o p x, weightFor o p r x w⟩) :
    Takes o p r w' (leftAfter o p r x w) := by
  have hle : lowFor o p x ≤ p.left.protection := by
    unfold lowFor
    split_ifs
    · exact min_le_right _ _
    · exact Nat.zero_le _
  constructor
  · have hlow : lowOf w' r ≤ lowFor o p x := by
      unfold lowOf
      rw [hg.same.group, hs]
      split_ifs <;> simp
    simp only [leftAfter]
    omega
  · unfold boostOf
    rw [hg.same.group, hg.same.saved, hs]
    simp only [weightFor, leftAfter]
    by_cases hb : boosted o p w (w.objects r) x = true
    · have hleft : p.left.boosts ≠ 0 := by
        intro h0
        simp [boosted, mayBoost, h0] at hb
      simp only [hb, if_true]
      split_ifs <;> omega
    · simp [hb]

theorem visit_run (o : Options) (p : Poll) (r : ℕ) (x : Glance) (hw : w.Marked) :
    ∃ w', w'.Marked ∧ SameVMs w w' ∧
      (∀ k' r', w.vms.get? k' = some r' → r' ≠ r → w'.leaves (w.objects r').group = w.leaves (w.objects r').group) ∧
      ((∃ e, (visit o p r x).run w = (.error e, w')) ∨
        ∃ left, (visit o p r x).run w = (.ok left, w') ∧
          ((∃ k, w.vms.get? k = some r) ∧ Takes o p r w' left ∨
            (∀ k, w.vms.get? k ≠ some r) ∧ left = p.left)) := by
  unfold visit
  rw [run_get_bind]
  dsimp only
  rw [run_ite]
  by_cases hkept : w.vms.get? ((w.objects r).session, (w.objects r).role) ≠ some r
  · rw [if_pos hkept]
    refine ⟨w, hw, .refl w, fun _ _ _ _ => rfl, .inr ⟨p.left, rfl, .inr ⟨?_, rfl⟩⟩⟩
    intro k hk
    exact hkept ((hw.refs k r hk).2 ▸ hk)
  have hr : w.vms.get? ((w.objects r).session, (w.objects r).role) = some r := not_not.mp hkept
  rw [if_neg hkept, run_modify_bind]
  -- the note of the last pressure moves nothing
  obtain ⟨w₁, hw₁⟩ : ∃ w₁, w₁ = World.press (isBlocked p (w.objects r)) (p.domains.get? (w.objects r).session)
    p.began w := ⟨_, rfl⟩
  rw [← hw₁]
  have hpress := aside_eases (f := World.press (isBlocked p (w.objects r)) (p.domains.get? (w.objects r).session)
    p.began) (fun _ => ⟨rfl, rfl, rfl, rfl, rfl⟩) w hw
  rw [run_modify, ← hw₁] at hpress
  obtain ⟨hmarked₁, he₁⟩ := hpress
  have hr₁ : w₁.vms.get? ((w.objects r).session, (w.objects r).role) = some r := by rw [he₁.same.vms, hr]
  have hobjects₁ : w₁.objects = w.objects := by rw [hw₁]; rfl
  have hleaves₁ : w₁.leaves = w.leaves := by rw [hw₁]; rfl
  have hothers : ∀ {w' : World}, (∀ g, g ≠ (w₁.objects r).group → w'.leaves g = w₁.leaves g) →
      ∀ k' r', w.vms.get? k' = some r' → r' ≠ r → w'.leaves (w.objects r').group = w.leaves (w.objects r').group := by
    intro w' hl k' r' hr' hne
    rw [hl, hleaves₁]
    rw [hobjects₁]
    intro hgroup
    exact hne (hw.groups k' _ r' r hr' hr hgroup)
  have hease : ∀ {w₂ : World}, Calm r w₁ w₂ → w₂.Marked →
      ∃ w', w'.Marked ∧ SameVMs w w' ∧
      (∀ k' r', w.vms.get? k' = some r' → r' ≠ r → w'.leaves (w.objects r').group = w.leaves (w.objects r').group) ∧
      ((∃ e, (ease o p r x).run w₂ = (.error e, w')) ∨
        ∃ left, (ease o p r x).run w₂ = (.ok left, w') ∧
          ((∃ k, w.vms.get? k = some r) ∧ Takes o p r w' left ∨
            (∀ k, w.vms.get? k ≠ some r) ∧ left = p.left)) := by
    intro w₂ hcalm₂ hmarked₂
    have hr₂ : w₂.vms.get? ((w.objects r).session, (w.objects r).role) = some r := by rw [hcalm₂.same.vms, hr₁]
    obtain ⟨w', hcalm, hrun⟩ := restore_run o r x.now x.restoreFails w₂ (hmarked₂.saved _ r hr₂).1
    have hcalm' := hcalm₂.trans hcalm
    refine ⟨w', hmarked₂.calm hcalm, he₁.same.trans hcalm'.same, hothers hcalm'.leaves, ?_⟩
    rcases hrun with ⟨c, e, -, hrun⟩ | ⟨hrun, hmarks⟩
    · exact .inl ⟨e, run_bind_error hrun _⟩
    · refine .inr ⟨p.left, run_bind_ok hrun _, .inl ⟨⟨_, hr⟩, ?_⟩⟩
      have hr' : w'.vms.get? ((w.objects r).session, (w.objects r).role) = some r := by rw [hcalm.same.vms, hr₂]
      exact takes_of_restored ((hmarked₂.calm hcalm).restored hr' hmarks) ((hmarked₂.calm hcalm).saved _ r hr').2
  rw [run_ite, run_ite, run_ite, run_ite]
  split_ifs with hphase hcontended hsample hcool
  · exact hease (.refl r w₁) hmarked₁
  · exact ⟨w₁, hmarked₁, he₁.same, hothers fun _ _ => rfl, .inl ⟨_, rfl⟩⟩
  · have hcool := changeVM_calm r (VM.cool_keeps fun _ => p.began + o.cooldown) w₁ (hmarked₁.saved _ r hr₁).1
    exact hease hcool (hmarked₁.calm hcool)
  · obtain ⟨w', hg, hrun⟩ := grant_run o p r x w₁
    refine ⟨w', hmarked₁.granted hr₁ hg, he₁.same.trans hg.same, hothers hg.leaves, ?_⟩
    rcases hrun with herror | ⟨hok, hs⟩
    · exact .inl herror
    · exact .inr ⟨_, hok, .inl ⟨⟨_, hr⟩, takes_of_grant hg hs⟩⟩
  · exact hease (.refl r w₁) hmarked₁

def due (todo : List ℕ) (f : ℕ → ℤ) (_ : String × Role) (r : ℕ) : ℤ := if r ∈ todo then 0 else f r

theorem due_nonneg {todo : List ℕ} {f : ℕ → ℤ} (hf : ∀ r, 0 ≤ f r) (k : String × Role) (r : ℕ) :
    0 ≤ due todo f k r := by
  unfold due
  split_ifs
  · exact le_rfl
  · exact hf r

theorem due_mono {todo : List ℕ} {f g : ℕ → ℤ} (h : f r ≤ g r) : due todo f k r ≤ due todo g k r := by
  unfold due
  split_ifs
  · exact le_rfl
  · exact h

structure Bound (o : Options) (w : World) (todo : List ℕ) (left : Left) : Prop where
  low : w.vms.sum (due todo (lowOf w)) + left.protection ≤ o.protectionBudget
  boosts : w.vms.sum (due todo (boostOf w)) + left.boosts ≤ o.maxBoostedVms

structure Lowers (w w' : World) : Prop where
  low : ∀ k r, w'.vms.get? k = some r → w.vms.get? k = some r ∧ lowOf w' r ≤ lowOf w r ∨ lowOf w' r = 0
  boosts : ∀ k r, w'.vms.get? k = some r → w.vms.get? k = some r ∧ boostOf w' r ≤ boostOf w r ∨ boostOf w' r = 0

theorem sum_due_le (todo : List ℕ) {f f' : ℕ → ℤ} {d d' : PyDict (String × Role) ℕ} (hf : ∀ r, 0 ≤ f r)
    (h : ∀ k r, d'.get? k = some r → d.get? k = some r ∧ f' r ≤ f r ∨ f' r = 0) :
    d'.sum (due todo f') ≤ d.sum (due todo f) := by
  obtain ⟨l, hnd⟩ := d'
  induction l generalizing d with
  | nil => exact PyDict.sum_nonneg fun k r _ => due_nonneg hf k r
  | cons e l ih =>
    have hcons := List.nodup_cons.mp hnd
    have hself : (⟨e :: l, hnd⟩ : PyDict (String × Role) ℕ).get? e.1 = some e.2 :=
      PyDict.get?_eq_some.mpr (by simp)
    have hrest : ∀ k r, (⟨l, hcons.2⟩ : PyDict (String × Role) ℕ).get? k = some r →
        k ≠ e.1 ∧ (d.get? k = some r ∧ f' r ≤ f r ∨ f' r = 0) := by
      intro k r hk
      have hmem : (k, r) ∈ l := PyDict.get?_eq_some.mp hk
      refine ⟨?_, h k r (PyDict.get?_eq_some.mpr (List.mem_cons_of_mem _ hmem))⟩
      intro he
      exact hcons.1 (he ▸ List.mem_map_of_mem (f := Prod.fst) hmem)
    have hsum : (⟨e :: l, hnd⟩ : PyDict (String × Role) ℕ).sum (due todo f') =
        due todo f' e.1 e.2 + (⟨l, hcons.2⟩ : PyDict (String × Role) ℕ).sum (due todo f') := rfl
    rw [hsum]
    rcases h e.1 e.2 hself with ⟨hd, hle⟩ | hzero
    · have hpop := ih (d := d.pop e.1) hcons.2 (fun k r hk => by
        obtain ⟨hne, hk'⟩ := hrest k r hk
        rw [PyDict.get?_pop_ne _ hne]
        exact hk')
      rw [PyDict.sum_pop_add hd]
      have hmono : due todo f' e.1 e.2 ≤ due todo f e.1 e.2 := due_mono hle
      omega
    · have hrest' := ih (d := d) hcons.2 (fun k r hk => (hrest k r hk).2)
      have hz : due todo f' e.1 e.2 = 0 := by
        unfold due
        rw [hzero]
        split_ifs <;> rfl
      omega

theorem Bound.lowers {todo : List ℕ} {left : Left} (h : Bound o w todo left) (hl : Lowers w w') :
    Bound o w' todo left := by
  have hlow := sum_due_le todo (lowOf_nonneg w) hl.low
  have hboosts := sum_due_le todo (boostOf_nonneg w) hl.boosts
  exact ⟨by have := h.low; omega, by have := h.boosts; omega⟩

theorem lowers_of_eases (hsaved : ∀ k r, w.vms.get? k = some r →
      w.savedOf (w.objects r).group = some (w.objects r).saved ∧ (w.objects r).saved.low = 0)
    (he : Eases w w') : Lowers w w' := by
  constructor
  · intro k r hr
    rw [he.same.vms] at hr
    refine .inl ⟨hr, ?_⟩
    obtain ⟨hst, hlow⟩ := hsaved k r hr
    unfold lowOf
    rw [he.same.group, he.same.present]
    split_ifs
    · rcases he.settings (w.objects r).group .memoryLow with hs | ⟨st, hst', hs⟩
      · exact le_of_eq (by exact_mod_cast hs)
      · rw [he.same.savedOf, hst] at hst'
        obtain rfl := Option.some.inj hst'
        have hs' : (w'.leaves (w.objects r).group).settings.low = (w.objects r).saved.low := hs
        rw [hs', hlow]
        exact Int.natCast_nonneg _
    · exact le_rfl
  · intro k r hr
    rw [he.same.vms] at hr
    refine .inl ⟨hr, ?_⟩
    obtain ⟨hst, -⟩ := hsaved k r hr
    unfold boostOf
    rw [he.same.group, he.same.present, he.same.saved]
    rcases he.settings (w.objects r).group .cpuWeight with hs | ⟨st, hst', hs⟩
    · have hs' : (w'.leaves (w.objects r).group).settings.weight = (w.leaves (w.objects r).group).settings.weight := hs
      simp only [hs', le_refl]
    · rw [he.same.savedOf, hst] at hst'
      obtain rfl := Option.some.inj hst'
      have hs' : (w'.leaves (w.objects r).group).settings.weight = (w.objects r).saved.weight := hs
      simp only [hs', ne_eq, not_true, and_false, if_false]
      exact boostOf_nonneg w r

theorem Bound.visit {todo : List ℕ} (hb : Bound o w todo p.left) (hmem : r ∈ todo) (hw : w.Marked)
    (hsame : SameVMs w w')
    (hothers : ∀ k' r', w.vms.get? k' = some r' → r' ≠ r →
      w'.leaves (w.objects r').group = w.leaves (w.objects r').group) {left : Left}
    (htakes : (∃ k, w.vms.get? k = some r) ∧ Takes o p r w' left ∨ (∀ k, w.vms.get? k ≠ some r) ∧ left = p.left) :
    Bound o w' (todo.filter (· ≠ r)) left := by
  have hlow' : ∀ k' r', w.vms.get? k' = some r' → r' ≠ r → lowOf w' r' = lowOf w r' := by
    intro k' r' hr' hne
    simp only [lowOf, hsame.group, hothers k' r' hr' hne]
  have hboost' : ∀ k' r', w.vms.get? k' = some r' → r' ≠ r → boostOf w' r' = boostOf w r' := by
    intro k' r' hr' hne
    simp only [boostOf, hsame.group, hsame.saved, hothers k' r' hr' hne]
  have hdue : ∀ {f f' : ℕ → ℤ} {k' r'}, r' ≠ r → f' r' = f r' → due (todo.filter (· ≠ r)) f' k' r' =
      due todo f k' r' := by
    intro f f' k' r' hne hf
    simp [due, hne, hf]
  have hself : ∀ {f' : ℕ → ℤ} {k'}, due (todo.filter (· ≠ r)) f' k' r = f' r := by
    intro f' k'
    simp [due]
  have hzero : ∀ {f : ℕ → ℤ} {k'}, due todo f k' r = 0 := by
    intro f k'
    simp [due, hmem]
  rcases htakes with ⟨⟨k, hr⟩, ht⟩ | ⟨hno, rfl⟩
  · have hrest : ∀ {f f' : ℕ → ℤ}, (∀ k' r', w.vms.get? k' = some r' → r' ≠ r → f' r' = f r') →
        w'.vms.sum (due (todo.filter (· ≠ r)) f') = f' r + w.vms.sum (due todo f) := by
      intro f f' hf
      rw [hsame.vms, PyDict.sum_pop_add hr, PyDict.sum_pop_add (f := due todo f) hr, hself, hzero, zero_add]
      congr 1
      apply PyDict.sum_congr
      intro k' r' hr'
      rw [PyDict.get?_pop] at hr'
      split_ifs at hr' with hk
      have hne : r' ≠ r := by
        rintro rfl
        exact hk ((hw.refs k' r' hr').2.symm.trans (hw.refs k r' hr).2)
      exact hdue hne (hf k' r' hr' hne)
    constructor
    · rw [hrest hlow']
      have := ht.low
      have := hb.low
      omega
    · rw [hrest hboost']
      have := ht.boosts
      have := hb.boosts
      omega
  · have hrest : ∀ {f f' : ℕ → ℤ}, (∀ k' r', w.vms.get? k' = some r' → r' ≠ r → f' r' = f r') →
        w'.vms.sum (due (todo.filter (· ≠ r)) f') = w.vms.sum (due todo f) := by
      intro f f' hf
      rw [hsame.vms]
      apply PyDict.sum_congr
      intro k' r' hr'
      have hne : r' ≠ r := by
        rintro rfl
        exact hno k' hr'
      exact hdue hne (hf k' r' hr' hne)
    constructor
    · rw [hrest hlow']
      exact hb.low
    · rw [hrest hboost']
      exact hb.boosts

def Settled (w : World) (todo : List ℕ) : Prop := ∀ k r, w.vms.get? k = some r → r ∉ todo → w.Restored r

theorem Settled.eases {todo : List ℕ} (h : Settled w todo) (hw : w.Marked) (he : Eases w w') : Settled w' todo := by
  intro k r hr hnot
  rw [he.same.vms] at hr
  exact (h k r hr hnot).eases (hw.saved k r hr).1 he

structure Tames (o : Options) (w w' : World) : Prop where
  marked : w'.Marked
  bound : ∀ todo left, Bound o w todo left → Bound o w' todo left
  settled : ∀ todo, Settled w todo → Settled w' todo

theorem Tames.trans {w'' : World} (h : Tames o w w') (h' : Tames o w' w'') : Tames o w w'' :=
  ⟨h'.marked, fun todo left hb => h'.bound todo left (h.bound todo left hb),
    fun todo hs => h'.settled todo (h.settled todo hs)⟩

theorem tames_of_eases (hw : w.Marked) (h : w'.Marked ∧ Eases w w') : Tames o w w' :=
  ⟨h.1, fun _ _ hb => hb.lowers (lowers_of_eases hw.saved h.2), fun _ hs => hs.eases hw h.2⟩

theorem enter_tames {x : Registration} {st : Settings} (hw : w.Marked) (hst : (w.leaves x.group).settings = st)
    (hlow : st.low = 0)
    (hfresh : ∀ k r, w.vms.get? k = some r → k ≠ (x.session, x.role) → (w.objects r).group ≠ x.group)
    (hmarks : ∀ r, w.vms.get? (x.session, x.role) = some r → ∀ c, ¬(w.objects r).Marks c) :
    Tames o w (enter x st (w.vms.get? (x.session, x.role)) w) := by
  have hget : ∀ k r, (enter x st (w.vms.get? (x.session, x.role)) w).vms.get? k = some r →
      r = entered x w ∨ w.vms.get? k = some r ∧ r ≠ entered x w := by
    intro k r hr
    simp only [enter, PyDict.get?_set] at hr
    split_ifs at hr with hk
    · exact .inl (Option.some.inj hr).symm
    · exact .inr ⟨hr, ne_entered hw hr hk⟩
  have hself : (enter x st (w.vms.get? (x.session, x.role)) w).Restored (entered x w) := by
    intro _
    rw [enter_object.1, enter_object.2]
    exact hst
  have hsaved : ((enter x st (w.vms.get? (x.session, x.role)) w).objects (entered x w)).saved.low = 0 := by
    rw [enter_object.2, hlow]
  refine ⟨enter_marked hw hst hlow hfresh hmarks, fun todo left hb => hb.lowers ⟨?_, ?_⟩, ?_⟩
  · intro k r hr
    rcases hget k r hr with rfl | ⟨hr, hne⟩
    · exact .inr (hself.lowOf_eq hsaved)
    · refine .inl ⟨hr, le_of_eq ?_⟩
      unfold lowOf
      rw [enter_objects_ne hne]
      rfl
  · intro k r hr
    rcases hget k r hr with rfl | ⟨hr, hne⟩
    · exact .inr hself.boostOf_eq
    · refine .inl ⟨hr, le_of_eq ?_⟩
      unfold boostOf
      rw [enter_objects_ne hne]
      rfl
  · intro todo hs k r hr hnot
    rcases hget k r hr with rfl | ⟨hr, hne⟩
    · exact hself
    · have hres := hs k r hr hnot
      unfold World.Restored at hres ⊢
      rw [enter_objects_ne hne]
      exact hres

theorem register_tames (x : Registration) (now : ℤ) (fails : Fails) (psiMissing readFails : Bool) (hw : w.Marked)
    (hfresh : ∀ k r, w.vms.get? k = some r → k ≠ (x.session, x.role) → (w.objects r).group ≠ x.group) :
    Tames o w ((register o x now fails psiMissing readFails).run w).2 := by
  obtain ⟨w₁, hw₁, he, hrun⟩ := register_run o x now fails psiMissing readFails hw
  have htames := tames_of_eases (o := o) hw ⟨hw₁, he⟩
  rcases hrun with ⟨e, hrun⟩ | ⟨hrun, hlow, hmarks⟩
  · rw [hrun]
    exact htames
  · rw [hrun]
    have hsame : w.vms.get? (x.session, x.role) = w₁.vms.get? (x.session, x.role) := by rw [he.same.vms]
    rw [hsame] at hmarks ⊢
    refine htames.trans (enter_tames hw₁ rfl hlow ?_ hmarks)
    intro k r hr hk
    rw [he.same.vms] at hr
    rw [he.same.group]
    exact hfresh k r hr hk

theorem without_tames (hw : w.Marked) (hw' : w'.Marked) (he : Eases (w.without k) w') : Tames o w w' := by
  have hsub : ∀ k' r, (w.without k).vms.get? k' = some r → w.vms.get? k' = some r := by
    intro k' r hr
    simp only [World.without, PyDict.get?_pop] at hr
    split_ifs at hr
    exact hr
  have hlowers : Lowers w (w.without k) :=
    ⟨fun k' r hr => .inl ⟨hsub k' r hr, le_rfl⟩, fun k' r hr => .inl ⟨hsub k' r hr, le_rfl⟩⟩
  refine ⟨hw', ?_, ?_⟩
  · intro todo left hb
    exact (hb.lowers hlowers).lowers (lowers_of_eases (fun k' r hr => hw.saved k' r (hsub k' r hr)) he)
  · intro todo hs k' r hr hnot
    rw [he.same.vms] at hr
    have hr' := hsub k' r hr
    have hres : (w.without k).Restored r := hs k' r hr' hnot
    exact hres.eases (hw.saved k' r hr').1 he

theorem unregister_run (session : String) (now : ℤ) {fails : Role → Fails} (hfails : ∀ role c, fails role c = false)
    (hw : w.Marked) :
    ∃ w', (unregister o session now fails).run w = (.ok (), w') ∧ Tames o w w' ∧
      ∀ role r, w.vms.get? (session, role) = some r → w'.Restored r := by
  obtain ⟨w₁, hrun₁, he₁, hw₁, hres₁, -⟩ :=
    restorePrevious_run (k := (session, Role.runtime)) o now (hfails .runtime) hw
  obtain ⟨w₂, hrun₂, he₂, hw₂, hres₂, hleaves₂⟩ :=
    restorePrevious_run (k := (session, Role.tool)) o now (hfails .tool) hw₁
  have haside := aside_eases (f := fun w => { w with domains := w.domains.pop session })
    (fun _ => ⟨rfl, rfl, rfl, rfl, rfl⟩) w₂ hw₂
  refine ⟨_, ?_, ((without_tames hw hw₁ he₁).trans (without_tames hw₁ hw₂ he₂)).trans (tames_of_eases hw₂ haside), ?_⟩
  · have hruntime : (unregisterRole o session now .runtime (fails .runtime)).run w = (.ok (), w₁) := hrun₁
    have htool : (unregisterRole o session now .tool (fails .tool)).run w₁ = (.ok (), w₂) := hrun₂
    unfold unregister
    rw [run_bind_ok hruntime, run_bind_ok htool]
    rfl
  · have hvms₁ : ∀ k', k' ≠ (session, Role.runtime) → w₁.vms.get? k' = w.vms.get? k' := by
      intro k' hk
      rw [he₁.same.vms]
      simp only [World.without]
      rw [PyDict.get?_pop_ne _ hk]
    intro role r hr
    cases role with
    | runtime =>
      have hres := hres₁ r hr
      -- the other VM of the session has another leaf
      have hleaf : w₂.leaves (w₁.objects r).group = w₁.leaves (w₁.objects r).group := by
        apply hleaves₂
        intro r' hr' hgroup
        rw [hvms₁ _ (by simp)] at hr'
        rw [he₁.same.group, he₁.same.group] at hgroup
        obtain rfl := hw.groups _ _ r' r hr' hr hgroup
        have hkey := (hw.refs _ r' hr').2.symm.trans (hw.refs _ r' hr).2
        simp at hkey
      have hgroup₂ : (w₂.objects r).group = (w₁.objects r).group := he₂.same.group r
      have hsaved₂ : (w₂.objects r).saved = (w₁.objects r).saved := he₂.same.saved r
      simp only [run_modify]
      unfold World.Restored at hres ⊢
      simp only
      rw [hgroup₂, hsaved₂, hleaf]
      exact hres
    | tool => exact hres₂ r (by rw [hvms₁ _ (by simp), hr])

end ClawBox.Pressure
