import ClawBox.Pressure.Polling

namespace ClawBox.Pressure

open Transition Raising

variable {o : Options}

def Poller.Keeps (o : Options) (w : World) : Poller → Prop
  | .idle => Bound o w [] ⟨0, 0⟩
  | .polling p => Bound o w p.todo p.left
  | .rescuing todo true => Settled w todo
  | .rescued true => Settled w []
  | _ => True

def Poller.joined : Poller → Bool
  | .rescued _ | .ended => true
  | _ => false

def Closer.Keeps (w : World) (p : Poller) : Closer → Prop
  | .restoring todo => Settled w todo ∧ p.joined
  | .restored => Settled w [] ∧ p.joined
  | _ => True

theorem Poller.Keeps.tames {w w' : World} {p : Poller} (h : p.Keeps o w) (ht : Tames o w w') : p.Keeps o w' := by
  unfold Poller.Keeps at h ⊢
  split at h
  · exact ht.bound _ _ h
  · exact ht.bound _ _ h
  · exact ht.settled _ h
  · exact ht.settled _ h
  · trivial

theorem Closer.Keeps.tames {w w' : World} {p : Poller} {c : Closer} (h : c.Keeps w p) (ht : Tames o w w') :
    c.Keeps w' p := by
  unfold Closer.Keeps at h ⊢
  split at h
  · exact ⟨ht.settled _ h.1, h.2⟩
  · exact ⟨ht.settled _ h.1, h.2⟩
  · trivial

theorem Closer.Keeps.of_running {w w' : World} {p p' : Poller} {c : Closer} (h : c.Keeps w p) (hp : p.joined = false) :
    c.Keeps w' p' := by
  unfold Closer.Keeps at h ⊢
  split at h
  · simp [hp] at h
  · simp [hp] at h
  · trivial

theorem settled_registered (w : World) : Settled w (State.registered w) := by
  intro k r hr hnot
  exact absurd (List.mem_map.mpr ⟨(k, r), PyDict.get?_eq_some.mp hr, rfl⟩) hnot

theorem bound_registered (o : Options) (w : World) :
    Bound o w (State.registered w) ⟨o.protectionBudget, o.maxBoostedVms⟩ := by
  have hzero : ∀ f : ℕ → ℤ, w.vms.sum (due (State.registered w) f) = 0 := by
    intro f
    have hconst : w.vms.sum (due (State.registered w) f) = w.vms.sum fun _ _ => 0 := by
      apply PyDict.sum_congr
      intro k r hr
      exact if_pos (List.mem_map.mpr ⟨(k, r), PyDict.get?_eq_some.mp hr, rfl⟩)
    rw [hconst]
    simp [PyDict.sum]
  exact ⟨by rw [hzero]; simp, by rw [hzero]; simp⟩

theorem restoreIfKept_settled {r : ℕ} {todo : List ℕ} {w w' : World} {now : ℤ} {fails : Fails} (hw : w.Marked)
    (hs : Settled w (r :: todo)) (hrun : (restoreIfKept o r now fails).run w = (.ok (), w')) : Settled w' todo := by
  have heases := restoreIfKept_eases (r := r) o now fails w hw
  rw [hrun] at heases
  intro k r' hr' hnot
  have hr : w.vms.get? k = some r' := by rw [← heases.2.same.vms, hr']
  by_cases he : r' = r
  · subst he
    exact restoreIfKept_restored hw hrun hr
  · exact (hs k r' hr (by simp [he, hnot])).eases (hw.saved k r' hr).1 heases.2

namespace State

variable {s t : State} {a : Action} {out : Outcome}

theorem putCloser_keeps {w : World} {p : Poller} (h : ∀ i, (s.closers i).Keeps w p) {i : ℕ} {c : Closer}
    (hc : c.Keeps w p) : ∀ j, ((s.putCloser i c).closers j).Keeps w p := by
  intro j
  by_cases hj : j = i
  · subst hj
    simpa [putCloser] using hc
  · simpa [putCloser, hj] using h j

structure Sound (o : Options) (s : State) : Prop where
  marked : s.world.Marked
  poller : s.poller.Keeps o s.world
  closers : ∀ i, (s.closers i).Keeps s.world s.poller

theorem Sound.tames (h : s.Sound o) {w' : World} (ht : Tames o s.world w') : ({ s with world := w' } : State).Sound o :=
  ⟨ht.marked, h.poller.tames ht, fun i => (h.closers i).tames ht⟩

theorem Sound.eases (h : s.Sound o) {x : Step Unit} (hx : Moves EaseAll x) :
    ({ s with world := (x.run s.world).2 } : State).Sound o :=
  h.tames (tames_of_eases h.marked (hx s.world h.marked))

/-- A registration is given a leaf of its own, and the writes of an `unregister` work. -/
def careful (s : State) : Action → Bool
  | .register x _ _ _ _ =>
    s.world.vms.entries.all fun e => e.1 = (x.session, x.role) || (s.world.objects e.2).group ≠ x.group
  | .unregister _ _ fails =>
    [Role.runtime, Role.tool].all fun role => [Control.memoryLow, Control.cpuWeight].all fun c => !fails role c
  | _ => true

theorem fails_of_careful {fails : Role → Fails} {session : String} {now : ℤ}
    (h : s.careful (.unregister session now fails)) (role : Role) (c : Control) : fails role c = false := by
  simp only [careful, List.all_cons, List.all_nil, Bool.and_true, Bool.and_eq_true, Bool.not_eq_true'] at h
  cases role <;> cases c <;> simp_all

theorem prepare_tames {w : World} (hw : w.Marked) {g : String} {leaf : Leaf}
    (hfree : ∀ k r, w.vms.get? k = some r → (w.objects r).group ≠ g) :
    Tames o w { w.putLeaf g leaf with savedOf := Function.update w.savedOf g none } := by
  have hleaf : ∀ k r, w.vms.get? k = some r →
      (w.putLeaf g leaf).leaves (w.objects r).group = w.leaves (w.objects r).group := by
    intro k r hr
    rw [World.leaves_putLeaf, if_neg (hfree k r hr)]
  refine ⟨⟨hw.refs, hw.groups, ?_, ?_⟩, ?_, ?_⟩
  · intro k r hr
    obtain ⟨hst, hlow⟩ := hw.saved k r hr
    exact ⟨(Function.update_of_ne (hfree k r hr) _ _).trans hst, hlow⟩
  · intro g' st c hst hpresent hne
    by_cases hg : g' = g
    · subst hg
      simp at hst
    · simp only [Function.update_of_ne hg] at hst
      rw [World.leaves_putLeaf, if_neg hg] at hpresent hne
      exact hw.marks g' st c hst hpresent hne
  · intro todo left hb
    refine hb.lowers ⟨?_, ?_⟩
    · intro k r hr
      refine .inl ⟨hr, le_of_eq ?_⟩
      have h := hleaf k r hr
      simp only [lowOf]
      rw [show (w.putLeaf g leaf).objects = w.objects from rfl, h]
    · intro k r hr
      refine .inl ⟨hr, le_of_eq ?_⟩
      have h := hleaf k r hr
      simp only [boostOf]
      rw [show (w.putLeaf g leaf).objects = w.objects from rfl]
      simp only [h]
  · intro todo hs k r hr hnot
    have h := hleaf k r hr
    have hres := hs k r hr hnot
    unfold World.Restored at hres ⊢
    simp only
    rw [show (w.putLeaf g leaf).objects = w.objects from rfl, h]
    exact hres

theorem vanish_tames {w : World} (hw : w.Marked) (g : String) : Tames o w (w.putLeaf g {}) := by
  have hobjects : (w.putLeaf g {}).objects = w.objects := rfl
  refine ⟨⟨hw.refs, hw.groups, hw.saved, ?_⟩, ?_, ?_⟩
  · intro g' st c hst hpresent hne
    rw [World.leaves_putLeaf] at hpresent hne
    by_cases hg : g' = g
    · simp [hg] at hpresent
    · rw [if_neg hg] at hpresent hne
      exact hw.marks g' st c hst hpresent hne
  · intro todo left hb
    refine hb.lowers ⟨?_, ?_⟩
    · intro k r hr
      simp only [lowOf, hobjects, World.leaves_putLeaf]
      by_cases hg : (w.objects r).group = g
      · right
        simp [hg]
      · left
        simp only [if_neg hg, le_refl, and_true]
        exact hr
    · intro k r hr
      simp only [boostOf, hobjects, World.leaves_putLeaf]
      by_cases hg : (w.objects r).group = g
      · right
        simp [hg]
      · left
        simp only [if_neg hg, le_refl, and_true]
        exact hr
  · intro todo hs k r hr hnot
    unfold World.Restored
    rw [hobjects, World.leaves_putLeaf]
    split_ifs with hg
    · intro hpresent
      simp at hpresent
    · exact hs k r hr hnot

theorem Sound.polling (h : s.Sound o) {p : Poll} (hp : s.poller = .polling p) : Bound o s.world p.todo p.left := by
  have hpoller := h.poller
  rwa [hp] at hpoller

theorem Sound.pollVisit {r : ℕ} {x : Glance} (h : s.Sound o)
    (hn : State.next o s (.pollVisit r x) = some (t, out)) : t.Sound o := by
  simp only [State.next, after] at hn
  split at hn
  · rename_i p hp
    have hbound := h.polling hp
    have hrunning : s.poller.joined = false := by rw [hp]; rfl
    split_ifs at hn with hmem
    obtain ⟨w', hw', hsame, hothers, hrun⟩ := visit_run o p r x h.marked
    rcases hrun with ⟨e, hrun⟩ | ⟨left, hrun, htakes⟩
    · rw [hrun] at hn
      obtain ⟨rfl, -⟩ := Prod.mk.inj (Option.some.inj hn)
      exact ⟨hw', trivial, fun i => (h.closers i).of_running hrunning⟩
    · rw [hrun] at hn
      obtain ⟨rfl, -⟩ := Prod.mk.inj (Option.some.inj hn)
      exact ⟨hw', hbound.visit hmem h.marked hsame hothers htakes, fun i => (h.closers i).of_running hrunning⟩
  · simp at hn

theorem Sound.pollEnd (h : s.Sound o) (hn : State.next o s .pollEnd = some (t, out)) : t.Sound o := by
  simp only [State.next, after] at hn
  split at hn
  · rename_i p hp
    have hbound := h.polling hp
    split_ifs at hn with htodo
    obtain ⟨rfl, -⟩ := Prod.mk.inj (Option.some.inj hn)
    rw [htodo] at hbound
    refine ⟨h.marked, ⟨?_, ?_⟩, fun i => (h.closers i).of_running (by rw [hp]; rfl)⟩
    · have := hbound.low
      dsimp only
      omega
    · have := hbound.boosts
      dsimp only
      omega
  · simp at hn

theorem Sound.rescue {now : ℤ} {fails : Fails} (h : s.Sound o)
    (hn : State.next o s (.rescue now fails) = some (t, out)) : t.Sound o := by
  simp only [State.next, after] at hn
  split at hn
  · rename_i r todo clean hp
    have hrunning : s.poller.joined = false := by rw [hp]; rfl
    have heases := restoreIfKept_eases (r := r) o now fails s.world h.marked
    have hpoller := h.poller
    rw [hp] at hpoller
    rcases hrun : (restoreIfKept o r now fails).run s.world with ⟨res, w'⟩
    rw [hrun] at hn heases
    cases res with
    | ok u =>
      obtain ⟨rfl, -⟩ := Prod.mk.inj (Option.some.inj hn)
      refine ⟨heases.1, ?_, fun i => (h.closers i).of_running hrunning⟩
      cases clean with
      | true => exact restoreIfKept_settled h.marked hpoller hrun
      | false => trivial
    | error e =>
      obtain ⟨rfl, -⟩ := Prod.mk.inj (Option.some.inj hn)
      exact ⟨heases.1, trivial, fun i => (h.closers i).of_running hrunning⟩
  · simp at hn

theorem Sound.closeVisit {i : ℕ} {now : ℤ} {fails : Fails} (h : s.Sound o)
    (hn : State.next o s (.closeVisit i now fails) = some (t, out)) : t.Sound o := by
  simp only [State.next, after] at hn
  split at hn
  · rename_i r todo hc
    have heases := restoreIfKept_eases (r := r) o now fails s.world h.marked
    have hcloser := h.closers i
    rw [hc] at hcloser
    rcases hrun : (restoreIfKept o r now fails).run s.world with ⟨res, w'⟩
    rw [hrun] at hn heases
    have ht : Tames o s.world w' := tames_of_eases h.marked heases
    have hothers : ∀ j, (s.closers j).Keeps w' s.poller := fun j => (h.closers j).tames ht
    cases res with
    | ok u =>
      obtain ⟨rfl, -⟩ := Prod.mk.inj (Option.some.inj hn)
      have hsettled := restoreIfKept_settled h.marked hcloser.1 hrun
      exact ⟨heases.1, h.poller.tames ht, putCloser_keeps hothers ⟨hsettled, hcloser.2⟩⟩
    | error e =>
      obtain ⟨rfl, -⟩ := Prod.mk.inj (Option.some.inj hn)
      exact ⟨heases.1, h.poller.tames ht, putCloser_keeps hothers trivial⟩
  · simp at hn

theorem Sound.next (h : s.Sound o) (hok : s.careful a) (hn : State.next o s a = some (t, out)) : t.Sound o := by
  cases a with
  | prepare g leaf =>
    simp only [State.next, after] at hn
    split_ifs at hn with hused
    obtain ⟨rfl, -⟩ := Prod.mk.inj (Option.some.inj hn)
    refine h.tames (prepare_tames h.marked ?_)
    intro k r hr hg
    apply hused
    simp only [List.any_eq_true, decide_eq_true_eq]
    exact ⟨r, List.mem_map.mpr ⟨(k, r), PyDict.get?_eq_some.mp hr, rfl⟩, hg⟩
  | vanish g =>
    simp only [State.next, after] at hn
    obtain ⟨rfl, -⟩ := Prod.mk.inj (Option.some.inj hn)
    exact h.tames (vanish_tames h.marked g)
  | register x now fails psiMissing readFails =>
    simp only [State.next, call] at hn
    obtain ⟨rfl, -⟩ := Prod.mk.inj (Option.some.inj hn)
    refine h.tames (register_tames x now fails psiMissing readFails h.marked ?_)
    intro k r hr hk
    simp only [careful, List.all_eq_true, Bool.or_eq_true, decide_eq_true_eq] at hok
    exact (hok (k, r) (PyDict.get?_eq_some.mp hr)).resolve_left hk
  | generation session role sandbox now fails =>
    simp only [State.next, call] at hn
    obtain ⟨rfl, -⟩ := Prod.mk.inj (Option.some.inj hn)
    exact h.eases (generation_eases o session role sandbox now fails)
  | transition session role now fails =>
    simp only [State.next, call] at hn
    obtain ⟨rfl, -⟩ := Prod.mk.inj (Option.some.inj hn)
    exact h.eases (transition_eases o session role now fails)
  | event session kind identifier now forecast fails =>
    simp only [State.next, call] at hn
    obtain ⟨rfl, -⟩ := Prod.mk.inj (Option.some.inj hn)
    exact h.eases (event_eases o session kind identifier now forecast fails)
  | unregister session now fails =>
    simp only [State.next, call] at hn
    obtain ⟨rfl, -⟩ := Prod.mk.inj (Option.some.inj hn)
    obtain ⟨w', hrun, ht, -⟩ := unregister_run (o := o) session now (fails_of_careful hok) h.marked
    rw [hrun]
    exact h.tames ht
  | pollBegin began reclaimContended blocked =>
    simp only [State.next, after] at hn
    split at hn
    · rename_i hidle hstop
      obtain ⟨rfl, -⟩ := Prod.mk.inj (Option.some.inj hn)
      exact ⟨h.marked, bound_registered o s.world, fun i => (h.closers i).of_running (by rw [hidle]; rfl)⟩
    · simp at hn
  | pollVisit r x => exact h.pollVisit hn
  | pollEnd => exact h.pollEnd hn
  | pollFail =>
    simp only [State.next] at hn
    split at hn
    · rename_i hp
      split_ifs at hn
      obtain ⟨rfl, -⟩ := Prod.mk.inj (Option.some.inj hn)
      exact ⟨h.marked, trivial, fun i => (h.closers i).of_running (by rw [hp]; rfl)⟩
    · rename_i p hp
      obtain ⟨rfl, -⟩ := Prod.mk.inj (Option.some.inj hn)
      exact ⟨h.marked, trivial, fun i => (h.closers i).of_running (by rw [hp]; rfl)⟩
    · simp at hn
  | rescueBegin =>
    simp only [State.next, after] at hn
    split at hn
    · rename_i hp
      obtain ⟨rfl, -⟩ := Prod.mk.inj (Option.some.inj hn)
      exact ⟨h.marked, settled_registered s.world, fun i => (h.closers i).of_running (by rw [hp]; rfl)⟩
    · simp at hn
  | rescue now fails => exact h.rescue hn
  | rescueEnd =>
    simp only [State.next, after] at hn
    split at hn
    · rename_i clean hp
      have hpoller := h.poller
      rw [hp] at hpoller
      obtain ⟨rfl, -⟩ := Prod.mk.inj (Option.some.inj hn)
      refine ⟨h.marked, ?_, fun i => (h.closers i).of_running (by rw [hp]; rfl)⟩
      cases clean with
      | true => exact hpoller
      | false => trivial
    · simp at hn
  | retire =>
    simp only [State.next, after] at hn
    split at hn
    · rename_i hp hstop
      obtain ⟨rfl, -⟩ := Prod.mk.inj (Option.some.inj hn)
      exact ⟨h.marked, trivial, fun i => (h.closers i).of_running (by rw [hp]; rfl)⟩
    · simp at hn
  | close i =>
    simp only [State.next, after] at hn
    split at hn
    · obtain ⟨rfl, -⟩ := Prod.mk.inj (Option.some.inj hn)
      exact ⟨h.marked, h.poller, putCloser_keeps h.closers trivial⟩
    · simp at hn
  | joinTimeout i =>
    simp only [State.next, after] at hn
    split at hn
    · obtain ⟨rfl, -⟩ := Prod.mk.inj (Option.some.inj hn)
      exact ⟨h.marked, h.poller, putCloser_keeps h.closers trivial⟩
    · simp at hn
  | closeBegin i =>
    simp only [State.next, after] at hn
    split at hn
    · rename_i hc hp
      obtain ⟨rfl, -⟩ := Prod.mk.inj (Option.some.inj hn)
      exact ⟨h.marked, h.poller, putCloser_keeps h.closers ⟨settled_registered s.world, by rw [hp]; rfl⟩⟩
    · rename_i clean hc hp
      obtain ⟨rfl, -⟩ := Prod.mk.inj (Option.some.inj hn)
      exact ⟨h.marked, h.poller, putCloser_keeps h.closers ⟨settled_registered s.world, by rw [hp]; rfl⟩⟩
    · simp at hn
  | closeVisit i now fails => exact h.closeVisit hn
  | closeEnd i =>
    simp only [State.next, after] at hn
    split at hn
    · rename_i hc
      have hcloser := h.closers i
      rw [hc] at hcloser
      obtain ⟨rfl, -⟩ := Prod.mk.inj (Option.some.inj hn)
      exact ⟨h.marked, h.poller, putCloser_keeps h.closers hcloser⟩
    · simp at hn

theorem Sound.start (h : Start s) : s.Sound o := by
  obtain ⟨⟨leaves, hw⟩, hp, hc, -⟩ := h
  refine ⟨?_, ?_, ?_⟩
  · rw [hw]
    refine ⟨?_, ?_, ?_, ?_⟩ <;> simp
  · rw [hw]
    rcases hp with hp | hp
    · rw [hp]
      exact ⟨by simp, by simp⟩
    · rw [hp]
      trivial
  · intro i
    rw [hc i]
    trivial

theorem sound_of_reachable (h : Reachable ((system o).restrict fun s l => s.careful l.1) s) : s.Sound o :=
  h.invariant (fun _ hs => .start hs) fun _ _ _ hs hstep => hs.next hstep.2 hstep.1

def OnlyMarked (w : World) : Prop :=
  (∀ k r, w.vms.get? k = some r → w.savedOf (w.objects r).group = some (w.objects r).saved) ∧
    ∀ g saved c, w.savedOf g = some saved → (w.leaves g).present → (w.leaves g).settings.get c ≠ saved.get c →
      ∃ k r, w.vms.get? k = some r ∧ (w.objects r).group = g ∧ (w.objects r).Marks c

def Undone (s t : State) : Action → Prop
  | .generation session role _ _ _ | .transition session role _ _ =>
    ∀ r, s.world.vms.get? (session, role) = some r → t.world.Restored r
  | .event session kind _ _ _ _ =>
    kind = .complete ∨ kind = .modelEnd → ∀ role r, s.world.vms.get? (session, role) = some r → t.world.Restored r
  | .unregister session _ _ => ∀ role r, s.world.vms.get? (session, role) = some r → t.world.Restored r
  | _ => True

theorem Sound.undone (h : s.Sound o) (hok : s.careful a) (hn : State.next o s a = some (t, .ok ())) :
    Undone s t a := by
  cases a with
  | generation session role sandbox now fails =>
    simp only [State.next, call] at hn
    obtain ⟨rfl, hrun⟩ := Prod.mk.inj (Option.some.inj hn)
    intro r hr
    exact generation_restored h.marked (Prod.ext hrun rfl) hr
  | transition session role now fails =>
    simp only [State.next, call] at hn
    obtain ⟨rfl, hrun⟩ := Prod.mk.inj (Option.some.inj hn)
    intro r hr
    exact transition_restored h.marked (Prod.ext hrun rfl) hr
  | event session kind identifier now forecast fails =>
    simp only [State.next, call] at hn
    obtain ⟨rfl, hrun⟩ := Prod.mk.inj (Option.some.inj hn)
    intro hk role r hr
    exact event_restored hk h.marked (Prod.ext hrun rfl) hr
  | unregister session now fails =>
    simp only [State.next, call] at hn
    obtain ⟨rfl, hrun⟩ := Prod.mk.inj (Option.some.inj hn)
    obtain ⟨w', hrun', -, hres⟩ := unregister_run (o := o) session now (fails_of_careful hok) h.marked
    intro role r hr
    rw [hrun']
    exact hres role r hr
  | _ => trivial

/-- The controller has stopped: a `close` went through the VMs, or a failed poll was undone without a further failure.
-/
def Stopped (s : State) : Prop := (∃ i, s.closers i = .restored) ∨ s.poller = .rescued true

def WithinBudget (o : Options) (w : World) : Prop :=
  w.vms.sum (fun _ r => lowOf w r) ≤ o.protectionBudget ∧ w.vms.sum (fun _ r => boostOf w r) ≤ o.maxBoostedVms

theorem Sound.withinBudget (h : s.Sound o) (hp : s.poller = .idle) : WithinBudget o s.world := by
  have hbound := h.poller
  rw [hp] at hbound
  have hdue : ∀ f : ℕ → ℤ, s.world.vms.sum (due [] f) = s.world.vms.sum fun _ r => f r := by
    intro f
    apply PyDict.sum_congr
    intro k r _
    simp [due]
  have hlow := hbound.low
  have hboosts := hbound.boosts
  rw [hdue] at hlow hboosts
  simp only at hlow hboosts
  exact ⟨by omega, by omega⟩

theorem Sound.stopped (h : s.Sound o) (hs : s.Stopped) {k : String × Role} {r : ℕ} (hr : s.world.vms.get? k = some r) :
    s.world.Restored r := by
  rcases hs with ⟨i, hc⟩ | hp
  · have hcloser := h.closers i
    rw [hc] at hcloser
    exact hcloser.1 k r hr (by simp)
  · have hpoller := h.poller
    rw [hp] at hpoller
    exact hpoller k r hr (by simp)

theorem controls_undone (h : Reachable ((system o).restrict fun s l => s.careful l.1) s) :
    OnlyMarked s.world ∧
      (∀ a t, s.careful a → next o s a = some (t, .ok ()) → Undone s t a) ∧
      (s.Stopped → ∀ k r, s.world.vms.get? k = some r → s.world.Restored r) ∧
      (s.poller = .idle → WithinBudget o s.world) := by
  have hs := sound_of_reachable h
  refine ⟨⟨fun k r hr => (hs.marked.saved k r hr).1, hs.marked.marks⟩, ?_, ?_, hs.withinBudget⟩
  · intro a t hok hn
    exact hs.undone hok hn
  · intro hstop k r hr
    exact hs.stopped hstop hr

def smallBudget : Options :=
  { protectionBudget := 8, maxBoostedVms := 1, boostCpuWeight := 200, minRelease := 1, cooldown := 0, actionWindow := 9,
    exitHysteresis := 1, memoryProtection := true, cpuReleaseBoost := true }

def bareHost : State := { world := { leaves := fun _ => { present := true } }, poller := .idle }

def toolVM : Registration := { session := "a", role := .tool, group := "g", node := some 0, coordinator := 0 }

def reclaiming : Glance :=
  { now := 5, reclaim := true, cpuContended := false, workingSet := 10, currentBytes := 10, onNode := true }

theorem controls_undone_protected :
    let s := (trace (guarded careful (next smallBudget)) bareHost [.register toolVM 1 (fun _ => false) false false,
      .generation "a" .tool "vm" 1 (fun _ => false), .event "a" .ready "e" 2 none (fun _ _ => false),
      .event "a" .start "e" 3 none (fun _ _ => false), .pollBegin 5 true [], .pollVisit 0 reclaiming, .pollEnd]).1
    (s.world.leaves "g").settings = ⟨8, 100⟩ ∧ OnlyMarked s.world ∧
      (∀ a t, s.careful a → next smallBudget s a = some (t, .ok ()) → Undone s t a) ∧
      (s.Stopped → ∀ k r, s.world.vms.get? k = some r → s.world.Restored r) ∧
      (s.poller = .idle → WithinBudget smallBudget s.world) :=
  ⟨by decide +kernel, controls_undone ⟨bareHost, _, ⟨⟨_, rfl⟩, .inl rfl, fun _ => rfl, rfl⟩,
    run_guarded Start (next smallBudget) careful _ _⟩⟩

end State

end ClawBox.Pressure
