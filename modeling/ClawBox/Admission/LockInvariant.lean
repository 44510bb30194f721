import ClawBox.Admission.Lock

namespace ClawBox.AdmissionLock

open Transition

def Lock.queue (l : Lock) (progress : Bool) : List Waiter := if progress then l.progress else l.normal

structure Inv (s : State) : Prop where
  fresh : ∀ b, ∀ w ∈ s.lock.queue b, w.ident < s.nextIdent
  freshGranted : ∀ w ∈ s.lock.granted, w.ident < s.nextIdent
  kind : ∀ b, ∀ w ∈ s.lock.queue b, w.progress = b
  nodup : ∀ b, (s.lock.queue b).Nodup
  queued : ∀ b, ∀ w ∈ s.lock.queue b, w ∉ s.lock.granted ∧ (s.locals w.owner).phase.waitsOn = some w
  free : s.lock.owner = none → ∀ b, s.lock.queue b = []
  holder : ∀ t, 0 < (s.locals t).held → s.lock.owner = some t
  idle : ∀ t, s.lock.owner = some t → (s.locals t).phase = .idle →
    s.lock.depth = (s.locals t).held ∧ 0 < (s.locals t).held
  waits : ∀ t w, (s.locals t).phase.waitsOn = some w → w.owner = t ∧ (s.locals t).held = 0
  granted : ∀ t w, (s.locals t).phase.waitsOn = some w →
    (w ∈ s.lock.granted ↔ s.lock.owner = some t) ∧ (w ∈ s.lock.granted → s.lock.depth = 1)
  waiting : ∀ t w, (s.locals t).phase.waitsOn = some w → w ∉ s.lock.granted → w ∈ s.lock.queue w.progress
  restoring : ∀ t st, (s.locals t).phase = .restoring st →
    s.lock.owner = some t ∧ 0 < s.lock.depth ∧ st ∈ (s.locals t).saved
  saved : ∀ t, ∀ st ∈ (s.locals t).saved, 0 < st.depth
  resume : ∀ t w timed st, (s.locals t).phase = .waiting w timed (some st) → st ∈ (s.locals t).saved

theorem handoff_cases (l : Lock) :
    (∃ w rest, l.progress = w :: rest ∧ (l.normal = [] ∨ l.burst < 8) ∧
      l.handoff = (Lock.grant { l with progress := rest, burst := l.burst + 1 } w, some w)) ∨
    (∃ w rest, l.normal = w :: rest ∧ (l.progress = [] ∨ 8 ≤ l.burst) ∧
      l.handoff = (Lock.grant { l with normal := rest, burst := 0 } w, some w)) ∨
    (l.progress = [] ∧ l.normal = [] ∧
      l.handoff = ({ l with owner := none, depth := 0, burst := 0, ownerProgress := false }, none)) := by
  unfold Lock.handoff
  cases hp : l.progress with
  | nil =>
    cases hn : l.normal with
    | nil => exact .inr (.inr ⟨rfl, rfl, rfl⟩)
    | cons v more => exact .inr (.inl ⟨v, more, rfl, .inl rfl, rfl⟩)
  | cons w rest =>
    cases hn : l.normal with
    | nil => exact .inl ⟨w, rest, rfl, .inl rfl, rfl⟩
    | cons v more =>
      by_cases hb : l.burst < 8
      · exact .inl ⟨w, rest, rfl, .inr hb, by simp [hb]⟩
      · exact .inr (.inl ⟨v, more, rfl, .inr (by omega), by simp [hb]⟩)

theorem handoff_grants (l : Lock) :
    (∃ b w rest, l.queue b = w :: rest ∧ l.handoff.1.queue b = rest ∧ l.handoff.1.queue (!b) = l.queue (!b) ∧
      l.handoff.1.owner = some w.owner ∧ l.handoff.1.depth = 1 ∧ l.handoff.1.granted = w :: l.granted ∧
      l.handoff.2 = some w) ∨
    ((∀ b, l.queue b = []) ∧ (∀ b, l.handoff.1.queue b = []) ∧ l.handoff.1.owner = none ∧
      l.handoff.1.granted = l.granted ∧ l.handoff.2 = none) := by
  rcases handoff_cases l with ⟨w, rest, hp, _, h⟩ | ⟨w, rest, hn, _, h⟩ | ⟨hp, hn, h⟩
  · exact .inl ⟨true, w, rest, by simp [Lock.queue, hp], by simp [h, Lock.queue, Lock.grant],
      by simp [h, Lock.queue, Lock.grant], by simp [h, Lock.grant]⟩
  · exact .inl ⟨false, w, rest, by simp [Lock.queue, hn], by simp [h, Lock.queue, Lock.grant],
      by simp [h, Lock.queue, Lock.grant], by simp [h, Lock.grant]⟩
  · exact .inr ⟨by simp [Lock.queue, hp, hn], by simp [h, Lock.queue, hp, hn], by simp [h]⟩

@[simp] theorem setLocal_lock (s : State) (t : Thread) (x : Local) : (s.setLocal t x).lock = s.lock := rfl
@[simp] theorem setLocal_nextIdent (s : State) (t : Thread) (x : Local) :
    (s.setLocal t x).nextIdent = s.nextIdent := rfl
@[simp] theorem setLocal_self (s : State) (t : Thread) (x : Local) : (s.setLocal t x).locals t = x := by
  simp [State.setLocal]
@[simp] theorem setLocal_other (s : State) {t u : Thread} (x : Local) (h : u ≠ t) :
    (s.setLocal t x).locals u = s.locals u := by
  simp [State.setLocal, h]

theorem initial_inv : Inv initial := by
  constructor <;> simp [initial, Lock.queue, Phase.waitsOn]

theorem Inv.not_granted {s : State} (h : Inv s) {t u : Thread} (ho : s.lock.owner = some t)
    (hi : (s.locals t).phase = .idle) {w : Waiter} (hw : (s.locals u).phase.waitsOn = some w) :
    w ∉ s.lock.granted ∧ u ≠ t := by
  have hu : u ≠ t := by
    rintro rfl
    rw [hi] at hw
    simp [Phase.waitsOn] at hw
  refine ⟨fun hg => hu ?_, hu⟩
  have hown := (h.granted u w hw).1.mp hg
  rw [ho] at hown
  exact (Option.some.inj hown).symm

theorem Inv.mem_unique {s : State} (h : Inv s) {b c : Bool} {w : Waiter}
    (hb : w ∈ s.lock.queue b) (hc : w ∈ s.lock.queue c) : b = c := by
  rw [← h.kind b w hb, ← h.kind c w hc]

theorem Inv.giveUp {s : State} (h : Inv s) {t : Thread} (ho : s.lock.owner = some t)
    (hi : (s.locals t).phase = .idle) (d : ℕ) (sv : List Saved) (hsv : ∀ st ∈ sv, 0 < st.depth) :
    Inv ({ s with lock := (Lock.handoff { s.lock with depth := d }).1 }.setLocal t
      { s.locals t with held := 0, saved := sv }) := by
  set l := { s.lock with depth := d } with hl
  have hq : ∀ b, l.queue b = s.lock.queue b := fun b => by simp [hl, Lock.queue]
  set s' : State := { s with lock := l.handoff.1 }.setLocal t { s.locals t with held := 0, saved := sv } with hs'
  have hlock : s'.lock = l.handoff.1 := rfl
  have hphase : ∀ u, (s'.locals u).phase = (s.locals u).phase := by
    intro u
    by_cases hu : u = t
    · subst u; simp [hs']
    · simp [hs', hu]
  have hheld : ∀ u, (s'.locals u).held = 0 := by
    intro u
    by_cases hu : u = t
    · subst u; simp [hs']
    · have : ¬ 0 < (s.locals u).held := fun hp => hu (by
        have := h.holder u hp
        rw [ho] at this
        exact (Option.some.inj this).symm)
      simpa [hs', hu] using this
  have hsaved : ∀ u, ∀ st ∈ (s'.locals u).saved, 0 < st.depth := by
    intro u st hst
    by_cases hu : u = t
    · subst u; exact hsv st (by simpa [hs'] using hst)
    · exact h.saved u st (by simpa [hs', hu] using hst)
  have hnorestore : ∀ u st, (s.locals u).phase ≠ .restoring st := by
    intro u st hu
    have := (h.restoring u st hu).1
    rw [ho] at this
    obtain rfl := Option.some.inj this
    rw [hi] at hu
    cases hu
  have hresume : ∀ u v timed st, (s'.locals u).phase = .waiting v timed (some st) → st ∈ (s'.locals u).saved := by
    intro u v timed st hu
    rw [hphase] at hu
    have hut : u ≠ t := by
      rintro rfl
      rw [hi] at hu
      cases hu
    simpa [hs', hut] using h.resume u v timed st hu
  rcases handoff_grants l with ⟨b, w, rest, hw, hb, hnb, hown, hdepth, hgr, _⟩ | ⟨hempty, hempty', hown, hgr, _⟩
  · have hwq : w ∈ s.lock.queue b := by rw [← hq, hw]; simp
    have hmem : ∀ c, ∀ v ∈ s'.lock.queue c, v ∈ s.lock.queue c ∧ v ≠ w := by
      intro c v hv
      rw [hlock] at hv
      by_cases hc : c = b
      · subst c
        rw [hb] at hv
        have hnd := h.nodup b
        rw [← hq, hw, List.nodup_cons] at hnd
        refine ⟨by rw [← hq, hw]; exact List.mem_cons_of_mem _ hv, ?_⟩
        rintro rfl
        exact hnd.1 hv
      · obtain rfl : c = !b := by cases c <;> cases b <;> simp_all
        rw [hnb, hq] at hv
        refine ⟨hv, ?_⟩
        rintro rfl
        exact hc (h.mem_unique hv hwq)
    have hwait := (h.queued b w hwq).2
    refine ⟨?_, ?_, ?_, ?_, ?_, ?_, ?_, ?_, ?_, ?_, ?_, ?_, hsaved, ?_⟩
    · intro c v hv; exact h.fresh c v (hmem c v hv).1
    · intro v hv
      rw [hlock, hgr] at hv
      rcases List.mem_cons.mp hv with rfl | hv
      · exact h.fresh b v hwq
      · exact h.freshGranted v hv
    · intro c v hv; exact h.kind c v (hmem c v hv).1
    · intro c
      rw [hlock]
      by_cases hc : c = b
      · subst c
        rw [hb]
        have hnd := h.nodup b
        rw [← hq, hw] at hnd
        exact hnd.of_cons
      · obtain rfl : c = !b := by cases c <;> cases b <;> simp_all
        rw [hnb, hq]
        exact h.nodup _
    · intro c v hv
      obtain ⟨hv, hne⟩ := hmem c v hv
      rw [hphase, hlock, hgr]
      exact ⟨by simpa [hne] using (h.queued c v hv).1, (h.queued c v hv).2⟩
    · intro hnone; rw [hlock, hown] at hnone; cases hnone
    · intro u hu; rw [hheld u] at hu; omega
    · intro u hu hidle
      rw [hlock, hown] at hu
      obtain rfl := Option.some.inj hu
      rw [hphase] at hidle
      rw [hidle] at hwait
      simp [Phase.waitsOn] at hwait
    · intro u v hv
      rw [hphase] at hv
      exact ⟨(h.waits u v hv).1, hheld u⟩
    · intro u v hv
      rw [hphase] at hv
      have hng := (h.not_granted ho hi hv).1
      have hvo := (h.waits u v hv).1
      rw [hlock, hgr, hown, hdepth]
      refine ⟨?_, fun _ => rfl⟩
      rw [List.mem_cons, or_iff_left (show v ∉ l.granted from hng)]
      constructor
      · rintro rfl; rw [hvo]
      · intro hu
        have hwu : w.owner = u := Option.some.inj hu
        rw [hwu, hv] at hwait
        exact Option.some.inj hwait
    · intro u v hv hng
      rw [hphase] at hv
      have hne : v ≠ w := by
        rintro rfl
        exact hng (by rw [hlock, hgr]; simp)
      have hold := h.waiting u v hv (h.not_granted ho hi hv).1
      rw [hlock]
      by_cases hc : v.progress = b
      · rw [hc, hb]
        rw [hc, ← hq, hw, List.mem_cons] at hold
        exact hold.resolve_left hne
      · have hc' : v.progress = !b := by cases hvp : v.progress <;> cases b <;> simp_all
        rw [hc', hnb, hq, ← hc']
        exact hold
    · intro u st hu; rw [hphase] at hu; exact absurd hu (hnorestore u st)
    · exact hresume
  · have hnowait : ∀ u v, (s.locals u).phase.waitsOn ≠ some v := by
      intro u v hv
      have := h.waiting u v hv (h.not_granted ho hi hv).1
      rw [← hq, hempty] at this
      cases this
    have hnil : ∀ c v, v ∉ s'.lock.queue c := by
      intro c v hv
      rw [hlock, hempty'] at hv
      cases hv
    refine ⟨fun c v hv => absurd hv (hnil c v), ?_, fun c v hv => absurd hv (hnil c v), ?_,
      fun c v hv => absurd hv (hnil c v), fun _ c => hempty' c, ?_, ?_, ?_, ?_, ?_, ?_, hsaved, ?_⟩
    · intro v hv; rw [hlock, hgr] at hv; exact h.freshGranted v hv
    · intro c; rw [hlock, hempty']; exact List.nodup_nil
    · intro u hu; rw [hheld u] at hu; omega
    · intro u hu; rw [hlock, hown] at hu; cases hu
    · intro u v hv; rw [hphase] at hv; exact absurd hv (hnowait u v)
    · intro u v hv; rw [hphase] at hv; exact absurd hv (hnowait u v)
    · intro u v hv; rw [hphase] at hv; exact absurd hv (hnowait u v)
    · intro u st hu; rw [hphase] at hu; exact absurd hu (hnorestore u st)
    · exact hresume

theorem Inv.own {s : State} (h : Inv s) {t : Thread} (hold : s.lock.owner = some t ∨ s.lock.owner = none)
    (hnq : ∀ w, (s.locals t).phase.waitsOn = some w → w ∈ s.lock.granted) (l : Lock) (hown : l.owner = some t)
    (hgr : l.granted = s.lock.granted) (hq : ∀ b, l.queue b = s.lock.queue b) (x : Local)
    (hx : x.phase.waitsOn = none) (hidle : x.phase = .idle → l.depth = x.held ∧ 0 < x.held)
    (hrest : ∀ st, x.phase = .restoring st → 0 < l.depth ∧ st ∈ x.saved) (hsv : ∀ st ∈ x.saved, 0 < st.depth) :
    Inv ({ s with lock := l }.setLocal t x) := by
  have hother : ∀ u, u ≠ t → s.lock.owner ≠ some u := by
    intro u hu ho
    rcases hold with hold | hold
    · rw [hold] at ho; exact hu (Option.some.inj ho).symm
    · rw [hold] at ho; cases ho
  have hqueued : ∀ b, ∀ w ∈ s.lock.queue b, w.owner ≠ t := by
    intro b w hw he
    have hwait := h.queued b w hw
    rw [he] at hwait
    exact hwait.1 (hnq w hwait.2)
  have hwaits : ∀ u w, (({ s with lock := l }.setLocal t x).locals u).phase.waitsOn = some w →
      u ≠ t ∧ (s.locals u).phase.waitsOn = some w := by
    intro u w hw
    by_cases hu : u = t
    · subst u; simp [hx] at hw
    · exact ⟨hu, by simpa [hu] using hw⟩
  refine ⟨?_, ?_, ?_, ?_, ?_, ?_, ?_, ?_, ?_, ?_, ?_, ?_, ?_, ?_⟩
  · intro b w hw; exact h.fresh b w (by simpa [hq] using hw)
  · intro w hw; exact h.freshGranted w (by simpa [hgr] using hw)
  · intro b w hw; exact h.kind b w (by simpa [hq] using hw)
  · intro b; simpa [hq] using h.nodup b
  · intro b w hw
    have hw' : w ∈ s.lock.queue b := by simpa [hq] using hw
    simpa [hqueued b w hw', hgr] using h.queued b w hw'
  · intro hn; simp [hown] at hn
  · intro u hu
    by_cases hut : u = t
    · subst u; simpa using hown
    · exact absurd (h.holder u (by simpa [hut] using hu)) (hother u hut)
  · intro u hu hi
    obtain rfl : t = u := by simpa [hown] using hu
    simpa using hidle (by simpa using hi)
  · intro u w hw
    obtain ⟨hu, hw⟩ := hwaits u w hw
    simpa [hu] using h.waits u w hw
  · intro u w hw
    obtain ⟨hu, hw⟩ := hwaits u w hw
    have hng : w ∉ s.lock.granted := fun hg => hother u hu ((h.granted u w hw).1.mp hg)
    simp [hgr, hng, hown, Ne.symm hu]
  · intro u w hw hng
    obtain ⟨hu, hw⟩ := hwaits u w hw
    simpa [hq] using h.waiting u w hw (by simpa [hgr] using hng)
  · intro u st hu
    by_cases hut : u = t
    · subst u
      simpa using And.intro hown (hrest st (by simpa using hu))
    · exact absurd (h.restoring u st (by simpa [hut] using hu)).1 (hother u hut)
  · intro u st hst
    by_cases hut : u = t
    · subst u; exact hsv st (by simpa using hst)
    · exact h.saved u st (by simpa [hut] using hst)
  · intro u w timed st hu
    have hut : u ≠ t := by
      rintro rfl
      rw [setLocal_self] at hu
      rw [hu] at hx
      simp [Phase.waitsOn] at hx
    simpa [hut] using h.resume u w timed st (by simpa [hut] using hu)

theorem acquired_phase (x : Local) (r : Option Saved) : (x.acquired r).phase.waitsOn = none := by
  cases r <;> rfl

theorem Inv.acquired {s : State} (h : Inv s) {t : Thread} (hold : s.lock.owner = some t ∨ s.lock.owner = none)
    (hnq : ∀ w, (s.locals t).phase.waitsOn = some w → w ∈ s.lock.granted) (l : Lock) (hown : l.owner = some t)
    (hgr : l.granted = s.lock.granted) (hq : ∀ b, l.queue b = s.lock.queue b)
    (hd : l.depth = (s.locals t).held + 1) {r : Option Saved} (hr : ∀ st, r = some st → st ∈ (s.locals t).saved) :
    Inv ({ s with lock := l }.setLocal t ((s.locals t).acquired r)) := by
  apply h.own hold hnq l hown hgr hq _ (acquired_phase _ r)
  · intro hi
    cases r with
    | none => exact ⟨hd, Nat.succ_pos _⟩
    | some st => simp [Local.acquired] at hi
  · intro st hst
    cases r with
    | none => simp [Local.acquired] at hst
    | some st' =>
      obtain rfl : st' = st := by simpa [Local.acquired] using hst
      exact ⟨by omega, hr st' rfl⟩
  · intro st hst
    cases r <;> exact h.saved t st hst

theorem Inv.enqueue {s : State} (h : Inv s) {t u : Thread} (hi : (s.locals t).phase = .idle)
    (ho : s.lock.owner = some u) (hu : u ≠ t) (l : Lock) (progress : Bool)
    (hl : l = if progress then { s.lock with progress := s.lock.progress ++ [⟨s.nextIdent, t, progress⟩] }
      else { s.lock with normal := s.lock.normal ++ [⟨s.nextIdent, t, progress⟩] })
    (timed : Bool) {r : Option Saved} (hr : ∀ st, r = some st → st ∈ (s.locals t).saved) :
    Inv ({ s with lock := l, nextIdent := s.nextIdent + 1 }.setLocal t
      { s.locals t with phase := .waiting ⟨s.nextIdent, t, progress⟩ timed r }) := by
  set w : Waiter := ⟨s.nextIdent, t, progress⟩ with hw
  have hqp : l.queue progress = s.lock.queue progress ++ [w] := by
    cases progress <;> simp [hl, Lock.queue]
  have hqn : ∀ b, b ≠ progress → l.queue b = s.lock.queue b := by
    intro b hb
    cases progress <;> cases b <;> simp_all [Lock.queue]
  have hown : l.owner = some u := by rw [hl]; cases progress <;> simpa using ho
  have hgr : l.granted = s.lock.granted := by rw [hl]; cases progress <;> rfl
  have hdep : l.depth = s.lock.depth := by rw [hl]; cases progress <;> rfl
  have hmem : ∀ b v, v ∈ l.queue b → v ∈ s.lock.queue b ∨ (v = w ∧ b = progress) := by
    intro b v hv
    by_cases hb : b = progress
    · subst b
      rw [hqp, List.mem_append, List.mem_singleton] at hv
      exact hv.imp_right (fun e => ⟨e, rfl⟩)
    · rw [hqn b hb] at hv; exact .inl hv
  have hmem' : ∀ b v, v ∈ s.lock.queue b → v ∈ l.queue b := by
    intro b v hv
    by_cases hb : b = progress
    · subst b; rw [hqp]; exact List.mem_append_left _ hv
    · rwa [hqn b hb]
  have hwg : w ∉ s.lock.granted := fun hg => by have := h.freshGranted w hg; simp [hw] at this
  have hheld : (s.locals t).held = 0 := by
    by_contra hp
    have := h.holder t (by omega)
    rw [ho] at this
    exact hu (Option.some.inj this)
  have hqo : ∀ b v, v ∈ s.lock.queue b → v.owner ≠ t := by
    intro b v hv he
    have := (h.queued b v hv).2
    rw [he, hi] at this
    simp [Phase.waitsOn] at this
  refine ⟨?_, ?_, ?_, ?_, ?_, ?_, ?_, ?_, ?_, ?_, ?_, ?_, ?_, ?_⟩
  · intro b v hv
    rcases hmem b v hv with hv | ⟨rfl, _⟩
    · exact Nat.lt_succ_of_lt (h.fresh b v hv)
    · exact Nat.lt_succ_self _
  · intro v hv
    exact Nat.lt_succ_of_lt (h.freshGranted v (by simpa [hgr] using hv))
  · intro b v hv
    rcases hmem b v hv with hv | ⟨rfl, rfl⟩
    · exact h.kind b v hv
    · rfl
  · intro b
    change (l.queue b).Nodup
    by_cases hb : b = progress
    · subst b
      rw [hqp]
      refine List.Nodup.append (h.nodup _) (List.nodup_singleton w) ?_
      intro v hv hv'
      have := h.fresh _ v hv
      rw [List.mem_singleton.mp hv'] at this
      simp [hw] at this
    · rw [hqn b hb]; exact h.nodup b
  · intro b v hv
    rcases hmem b v hv with hv | ⟨rfl, _⟩
    · simpa [hqo b v hv, hgr] using h.queued b v hv
    · exact ⟨by simpa [hgr] using hwg, by simp [hw, Phase.waitsOn]⟩
  · intro hn; simp [hown] at hn
  · intro v hv
    by_cases hvt : v = t
    · subst v; simp [hheld] at hv
    · simpa [hown, ho] using h.holder v (by simpa [hvt] using hv)
  · intro v hv hvi
    obtain rfl : u = v := by simpa [hown] using hv
    simpa [hu, hdep] using h.idle u ho (by simpa [hu] using hvi)
  · intro v x hx
    by_cases hvt : v = t
    · subst v
      obtain rfl : w = x := by simpa [Phase.waitsOn] using hx
      exact ⟨rfl, by simpa using hheld⟩
    · simpa [hvt] using h.waits v x (by simpa [hvt] using hx)
  · intro v x hx
    by_cases hvt : v = t
    · subst v
      obtain rfl : w = x := by simpa [Phase.waitsOn] using hx
      simp [hgr, hwg, hown, hu]
    · simpa [hgr, hown, ho, hdep] using h.granted v x (by simpa [hvt] using hx)
  · intro v x hx hng
    by_cases hvt : v = t
    · subst v
      obtain rfl : w = x := by simpa [Phase.waitsOn] using hx
      change w ∈ l.queue progress
      rw [hqp]; simp
    · exact hmem' _ x (h.waiting v x (by simpa [hvt] using hx) (by simpa [hgr] using hng))
  · intro v st hv
    by_cases hvt : v = t
    · subst v; simp at hv
    · simpa [hown, ho, hdep, hvt] using h.restoring v st (by simpa [hvt] using hv)
  · intro v st hst
    by_cases hvt : v = t
    · subst v; exact h.saved t st (by simpa using hst)
    · exact h.saved v st (by simpa [hvt] using hst)
  · intro v x tm st hv
    by_cases hvt : v = t
    · subst v
      have : r = some st := by simp at hv; exact hv.2.2
      simpa using hr st this
    · simpa [hvt] using h.resume v x tm st (by simpa [hvt] using hv)

theorem Inv.leave {s : State} (h : Inv s) {t : Thread} {w : Waiter} (hp : (s.locals t).phase = .expired w)
    (hng : w ∉ s.lock.granted) (l : Lock)
    (hl : l = if w.progress then { s.lock with progress := s.lock.progress.erase w }
      else { s.lock with normal := s.lock.normal.erase w }) :
    Inv ({ s with lock := l }.setLocal t { s.locals t with phase := .idle }) ∧ ∀ b, w ∉ l.queue b := by
  have hwt : (s.locals t).phase.waitsOn = some w := by rw [hp]; rfl
  have hq : ∀ b, l.queue b = (s.lock.queue b).erase w := by
    intro b
    by_cases hb : b = w.progress
    · rw [hl, hb]; cases w.progress <;> simp [Lock.queue]
    · have hnot : w ∉ s.lock.queue b := fun hm => hb (h.kind b w hm).symm
      rw [List.erase_of_not_mem hnot, hl]
      cases hpr : w.progress <;> cases b <;> simp_all [Lock.queue]
  have hown : l.owner = s.lock.owner := by rw [hl]; split <;> rfl
  have hgr : l.granted = s.lock.granted := by rw [hl]; split <;> rfl
  have hdep : l.depth = s.lock.depth := by rw [hl]; split <;> rfl
  have hgone : ∀ b, w ∉ l.queue b := by
    intro b
    rw [hq b]
    exact (h.nodup b).not_mem_erase
  have hmem : ∀ b v, v ∈ l.queue b → v ∈ s.lock.queue b := by
    intro b v hv
    rw [hq b] at hv
    exact List.mem_of_mem_erase hv
  have hqo : ∀ b v, v ∈ l.queue b → v.owner ≠ t := by
    intro b v hv he
    have hv' := (h.queued b v (hmem b v hv)).2
    rw [he, hwt] at hv'
    obtain rfl := Option.some.inj hv'
    exact hgone b hv
  have hnown : s.lock.owner ≠ some t := fun ho => hng ((h.granted t w hwt).1.mpr ho)
  refine ⟨⟨?_, ?_, ?_, ?_, ?_, ?_, ?_, ?_, ?_, ?_, ?_, ?_, ?_, ?_⟩, hgone⟩
  · intro b v hv; exact h.fresh b v (hmem b v hv)
  · intro v hv; exact h.freshGranted v (by simpa [hgr] using hv)
  · intro b v hv; exact h.kind b v (hmem b v hv)
  · intro b
    change (l.queue b).Nodup
    rw [hq b]
    exact (h.nodup b).erase w
  · intro b v hv
    simpa [hqo b v hv, hgr] using h.queued b v (hmem b v hv)
  · intro hn b
    have hempty := h.free (by simpa [hown] using hn) b
    change l.queue b = []
    rw [hq b, hempty]
    rfl
  · intro v hv
    by_cases hvt : v = t
    · subst v
      simp [(h.waits t w hwt).2] at hv
    · simpa [hown] using h.holder v (by simpa [hvt] using hv)
  · intro v hv hvi
    have hvt : v ≠ t := by
      rintro rfl
      exact hnown (by simpa [hown] using hv)
    simpa [hvt, hdep] using h.idle v (by simpa [hown] using hv) (by simpa [hvt] using hvi)
  · intro v x hx
    by_cases hvt : v = t
    · subst v; simp [Phase.waitsOn] at hx
    · simpa [hvt] using h.waits v x (by simpa [hvt] using hx)
  · intro v x hx
    by_cases hvt : v = t
    · subst v; simp [Phase.waitsOn] at hx
    · simpa [hgr, hown, hdep] using h.granted v x (by simpa [hvt] using hx)
  · intro v x hx hxg
    by_cases hvt : v = t
    · subst v; simp [Phase.waitsOn] at hx
    · have hx' : (s.locals v).phase.waitsOn = some x := by simpa [hvt] using hx
      have hne : x ≠ w := by
        rintro rfl
        exact hvt ((h.waits v x hx').1.symm.trans (h.waits t x hwt).1)
      change x ∈ l.queue x.progress
      rw [hq, List.mem_erase_of_ne hne]
      exact h.waiting v x hx' (by simpa [hgr] using hxg)
  · intro v st hv
    by_cases hvt : v = t
    · subst v; simp at hv
    · simpa [hown, hdep, hvt] using h.restoring v st (by simpa [hvt] using hv)
  · intro v st hst
    by_cases hvt : v = t
    · subst v; exact h.saved t st (by simpa using hst)
    · exact h.saved v st (by simpa [hvt] using hst)
  · intro v x tm st hv
    by_cases hvt : v = t
    · subst v; simp at hv
    · simpa [hvt] using h.resume v x tm st (by simpa [hvt] using hv)

theorem Inv.expire {s : State} (h : Inv s) {t : Thread} {w : Waiter} {timed : Bool} {r : Option Saved}
    (hp : (s.locals t).phase = .waiting w timed r) : Inv (s.setLocal t { s.locals t with phase := .expired w }) := by
  set s' := s.setLocal t { s.locals t with phase := .expired w } with hs'
  have hwaits : ∀ u, (s'.locals u).phase.waitsOn = (s.locals u).phase.waitsOn := by
    intro u
    by_cases hu : u = t
    · subst u; simp [hs', hp, Phase.waitsOn]
    · simp [hs', hu]
  have hheld : ∀ u, (s'.locals u).held = (s.locals u).held := by
    intro u
    by_cases hu : u = t
    · subst u; simp [hs']
    · simp [hs', hu]
  have hsaved : ∀ u, (s'.locals u).saved = (s.locals u).saved := by
    intro u
    by_cases hu : u = t
    · subst u; simp [hs']
    · simp [hs', hu]
  have hphase : ∀ u p, (s'.locals u).phase = p → p ≠ .expired w → (s.locals u).phase = p := by
    intro u p hu hne
    by_cases hut : u = t
    · subst u; exact absurd (by simpa [hs'] using hu.symm) hne
    · simpa [hs', hut] using hu
  exact {
    fresh := h.fresh
    freshGranted := h.freshGranted
    kind := h.kind
    nodup := h.nodup
    queued := fun b v hv => by rw [hwaits]; exact h.queued b v hv
    free := h.free
    holder := fun u hu => h.holder u (by rwa [hheld] at hu)
    idle := fun u ho hu => by rw [hheld]; exact h.idle u ho (hphase u _ hu (by simp))
    waits := fun u v hv => by rw [hheld]; exact h.waits u v (by rwa [hwaits] at hv)
    granted := fun u v hv => h.granted u v (by rwa [hwaits] at hv)
    waiting := fun u v hv => h.waiting u v (by rwa [hwaits] at hv)
    restoring := fun u st hu => by rw [hsaved]; exact h.restoring u st (hphase u _ hu (by simp))
    saved := fun u st hst => h.saved u st (by rwa [hsaved] at hst)
    resume := fun u v tm st hu => by rw [hsaved]; exact h.resume u v tm st (hphase u _ hu (by simp)) }

theorem acquire_inv {s : State} (h : Inv s) {t : Thread} (hi : (s.locals t).phase = .idle) (blocking : Bool)
    (timeout : ℤ) (progress : Bool) {r : Option Saved} (hr : ∀ st, r = some st → st ∈ (s.locals t).saved) :
    Inv (s.acquire t blocking timeout progress r).1 := by
  have hnq : ∀ w, (s.locals t).phase.waitsOn = some w → w ∈ s.lock.granted := by simp [hi, Phase.waitsOn]
  unfold State.acquire
  dsimp only
  have henq : ∀ u, s.lock.owner = some u → s.lock.owner ≠ some t → u ≠ t := by
    rintro u hu hne rfl
    exact hne hu
  split_ifs with h1 h2 h3 h4 h5
  · exact h
  · exact h.acquired (.inl h2) hnq { s.lock with depth := s.lock.depth + 1 } h2 rfl (fun _ => rfl)
      (congrArg (· + 1) (h.idle t h2 hi).1) hr
  · have hheld : (s.locals t).held = 0 := by
      by_contra hp
      have := h.holder t (by omega)
      rw [h3] at this
      cases this
    exact h.acquired (.inr h3) hnq { s.lock with owner := some t, depth := 1, ownerProgress := progress } rfl rfl
      (fun _ => rfl) (by rw [hheld]) hr
  · exact h
  all_goals
    obtain ⟨u, hu⟩ := Option.ne_none_iff_exists'.mp h3
    exact h.enqueue hi hu (henq u hu h2) _ progress (by simp [h5]) _ hr

theorem next_inv {s s' : State} {a : Action} {e : Event} (h : Inv s) (hn : next s a = some (s', e)) : Inv s' := by
  cases a with
  | acquire t blocking timeout progress =>
    simp only [next] at hn
    split at hn
    · rename_i hi
      obtain rfl := congrArg Prod.fst (Option.some.inj hn)
      exact acquire_inv h hi blocking timeout progress (by simp)
    · cases hn
  | wake t =>
    simp only [next] at hn
    split at hn
    · rename_i w timed r hp
      split_ifs at hn with hg
      obtain rfl := congrArg Prod.fst (Option.some.inj hn)
      have hw : (s.locals t).phase.waitsOn = some w := by rw [hp]; rfl
      have hgr := h.granted t w hw
      refine h.acquired (.inl (hgr.1.mp hg)) (fun v hv => ?_) s.lock (hgr.1.mp hg) rfl (fun _ => rfl) ?_ ?_
      · rw [hw] at hv; exact Option.some.inj hv ▸ hg
      · rw [hgr.2 hg, (h.waits t w hw).2]
      · rintro st rfl; exact h.resume t w timed st hp
    · cases hn
  | expire t =>
    simp only [next] at hn
    split at hn
    · rename_i w hp
      obtain rfl := congrArg Prod.fst (Option.some.inj hn)
      exact h.expire hp
    · cases hn
  | recheck t =>
    simp only [next] at hn
    split at hn
    · rename_i w hp
      obtain rfl := congrArg Prod.fst (Option.some.inj hn)
      have hw : (s.locals t).phase.waitsOn = some w := by rw [hp]; rfl
      have hgr := h.granted t w hw
      unfold State.recheck
      dsimp only
      by_cases hg : w ∈ s.lock.granted
      · rw [if_pos hg]
        refine h.acquired (.inl (hgr.1.mp hg)) (fun v hv => ?_) s.lock (hgr.1.mp hg) rfl (fun _ => rfl) ?_ (by simp)
        · rw [hw] at hv; exact Option.some.inj hv ▸ hg
        · rw [hgr.2 hg, (h.waits t w hw).2]
      · rw [if_neg hg]
        have hq := h.waiting t w hw hg
        have hl := (h.leave hp hg _ rfl).1
        cases hpr : w.progress <;> simp only [hpr, Lock.queue, Bool.false_eq_true, ↓reduceIte] at hq hl ⊢ <;>
          rw [if_pos hq] <;> exact hl
    · cases hn
  | release t =>
    simp only [next] at hn
    split at hn
    · rename_i hi
      obtain rfl := congrArg Prod.fst (Option.some.inj hn)
      unfold State.release
      dsimp only
      split_ifs with ho hd
      · exact h
      · have ho : s.lock.owner = some t := not_not.mp ho
        obtain ⟨hdep, hpos⟩ := h.idle t ho hi
        have hheld : (s.locals t).held - 1 = 0 := by omega
        rw [hheld]
        exact h.giveUp ho hi (s.lock.depth - 1) _ (h.saved t)
      · have ho : s.lock.owner = some t := not_not.mp ho
        obtain ⟨hdep, hpos⟩ := h.idle t ho hi
        refine h.own (.inl ho) (by simp [hi, Phase.waitsOn]) { s.lock with depth := s.lock.depth - 1 } ho rfl
          (fun _ => rfl) { s.locals t with held := (s.locals t).held - 1 } (by simp [hi, Phase.waitsOn])
          (fun _ => ⟨?_, ?_⟩) (by simp [hi]) (h.saved t)
        · change s.lock.depth - 1 = (s.locals t).held - 1
          rw [hdep]
        · change 0 < (s.locals t).held - 1
          omega
    · cases hn
  | releaseSave t =>
    simp only [next] at hn
    split at hn
    · rename_i hi
      obtain rfl := congrArg Prod.fst (Option.some.inj hn)
      unfold State.releaseSave
      dsimp only
      split_ifs with ho
      · exact h
      · have ho : s.lock.owner = some t := not_not.mp ho
        obtain ⟨hdep, hpos⟩ := h.idle t ho hi
        refine h.giveUp ho hi s.lock.depth _ ?_
        intro st hst
        rcases List.mem_cons.mp hst with rfl | hst
        · change 0 < s.lock.depth
          omega
        · exact h.saved t st hst
    · cases hn
  | acquireRestore t st =>
    simp only [next] at hn
    split at hn
    · rename_i hi
      split_ifs at hn with hst
      obtain rfl := congrArg Prod.fst (Option.some.inj hn)
      refine acquire_inv h hi true (-1) st.progress ?_
      rintro _ ⟨⟩
      exact hst
    · cases hn
  | storeDepth t =>
    simp only [next] at hn
    split at hn
    · rename_i st hp
      obtain rfl := congrArg Prod.fst (Option.some.inj hn)
      obtain ⟨ho, hpos, hst⟩ := h.restoring t st hp
      exact h.own (.inl ho) (by simp [hp, Phase.waitsOn]) { s.lock with depth := st.depth } ho rfl (fun _ => rfl) _ rfl
        (fun _ => ⟨rfl, h.saved t st hst⟩) (by simp) (h.saved t)
    · cases hn

def State.Owns (s : State) (t : Thread) : Prop := 0 < (s.locals t).held

def Phase.restores : Phase → Option Saved
  | .waiting _ _ resume => resume
  | .restoring st => some st
  | _ => none

def State.Queued (s : State) (t : Thread) (timed progress : Bool) (resume : Option Saved) : Prop :=
  ∃ w, (s.locals t).phase = .waiting w timed resume ∧ w.owner = t ∧ w.progress = progress ∧ w ∈ s.lock.queue progress

structure Safe (s : State) : Prop where
  exclusive : ∀ t u, s.Owns t → s.Owns u → t = u
  recorded : ∀ t, s.Owns t → s.lock.owner = some t
  free : s.lock.owner = none → s.lock.normal = [] ∧ s.lock.progress = []
  queuedOnce : ∀ t w, (s.locals t).phase.waitsOn = some w → w ∉ s.lock.granted →
    (s.lock.normal ++ s.lock.progress).filter (·.owner = t) = [w]
  grantedGone : ∀ w ∈ s.lock.granted, w ∉ s.lock.normal ∧ w ∉ s.lock.progress
  timedOut : ∀ t w, (s.locals t).phase = .expired w → ∃ s' e, next s (.recheck t) = some (s', e) ∧
    ((e.reply = .returned true ∧ s'.lock.owner = some t ∧ s'.Owns t ∧ s'.lock = s.lock) ∨
      (e.reply = .returned false ∧ ¬ s'.Owns t ∧ s'.lock.normal = s.lock.normal.erase w ∧
        s'.lock.progress = s.lock.progress.erase w ∧ ∀ v ∈ s'.lock.normal ++ s'.lock.progress, v.owner ≠ t))
  nestedRelease : ∀ t s' e, next s (.release t) = some (s', e) → s.lock.owner = some t → 1 < s.lock.depth →
    s'.lock.owner = some t ∧ s'.lock.depth = s.lock.depth - 1 ∧ s'.Owns t ∧ e.handoff = none
  saves : ∀ t s' e, next s (.releaseSave t) = some (s', e) → s.lock.owner = some t →
    e.reply = .saved ⟨s.lock.depth, t, s.lock.ownerProgress⟩ ∧ ¬ s'.Owns t
  restores : ∀ t st, (s.locals t).phase = .restoring st → st ∈ (s.locals t).saved ∧
    ∃ s' e, next s (.storeDepth t) = some (s', e) ∧ s'.lock.owner = some t ∧ s'.lock.depth = st.depth ∧
      (s'.locals t).phase = .idle ∧ (s'.locals t).held = st.depth ∧ 0 < st.depth
  acquires : ∀ t blocking timeout progress, (s.locals t).phase = .idle → (blocking = true ∨ timeout = -1) →
    ∃ s' e, next s (.acquire t blocking timeout progress) = some (s', e) ∧
      ((e.reply = .returned true ∧ s'.lock.owner = some t ∧ (s'.locals t).held = (s.locals t).held + 1) ∨
        (e.reply = .returned false ∧ blocking = false ∧ s' = s ∧ ∃ u, u ≠ t ∧ s.lock.owner = some u) ∨
        (e.reply = .blocked ∧ s'.Queued t (timeout != -1) progress none))
  lastRelease : ∀ t, (s.locals t).phase = .idle → s.lock.owner = some t → s.lock.depth = 1 →
    ∃ s' e, next s (.release t) = some (s', e) ∧ ¬ s'.Owns t ∧
      ((e.handoff = none ∧ s'.lock.owner = none) ∨
        ∃ w b, e.handoff = some w ∧ w ∈ s.lock.queue b ∧ s'.lock.owner = some w.owner ∧ w ∈ s'.lock.granted)
  beginsRestore : ∀ t st, (s.locals t).phase = .idle → st ∈ (s.locals t).saved →
    ∃ s' e, next s (.acquireRestore t st) = some (s', e) ∧
      ((s'.lock.owner = some t ∧ (s'.locals t).phase = .restoring st) ∨ s'.Queued t false st.progress (some st))
  wakes : ∀ t w timed resume, (s.locals t).phase = .waiting w timed resume → w ∈ s.lock.granted →
    ∃ s' e, next s (.wake t) = some (s', e) ∧ s'.lock = s.lock ∧ s'.lock.owner = some t ∧
      (resume = none → e.reply = .returned true ∧ s'.Owns t) ∧
      ∀ st, resume = some st → (s'.locals t).phase = .restoring st
  leavesRestore : ∀ t st a s' e, (s.locals t).phase.restores = some st → next s a = some (s', e) →
    (s'.locals t).phase.restores = some st ∨ (a = .storeDepth t ∧ (s.locals t).phase = .restoring st)

theorem mem_queues {l : Lock} {w : Waiter} : w ∈ l.normal ++ l.progress ↔ ∃ b, w ∈ l.queue b := by
  simp [Lock.queue]

theorem Inv.nodup_queues {s : State} (h : Inv s) : (s.lock.normal ++ s.lock.progress).Nodup := by
  refine List.Nodup.append (h.nodup false) (h.nodup true) ?_
  intro w hn hp
  exact Bool.noConfusion (h.mem_unique (b := false) (c := true) hn hp)

theorem Inv.queuedOnce {s : State} (h : Inv s) {t : Thread} {w : Waiter}
    (hw : (s.locals t).phase.waitsOn = some w) (hng : w ∉ s.lock.granted) :
    (s.lock.normal ++ s.lock.progress).filter (·.owner = t) = [w] := by
  apply List.perm_singleton.mp
  refine (List.perm_ext_iff_of_nodup (h.nodup_queues.filter _) (List.nodup_singleton w)).mpr ?_
  intro v
  rw [List.mem_filter, mem_queues, List.mem_singleton, decide_eq_true_iff]
  constructor
  · rintro ⟨⟨b, hv⟩, rfl⟩
    have hwait := (h.queued b v hv).2
    rw [hw] at hwait
    exact (Option.some.inj hwait).symm
  · rintro rfl
    exact ⟨⟨_, h.waiting t v hw hng⟩, (h.waits t v hw).1⟩

theorem Inv.timedOut {s : State} (h : Inv s) {t : Thread} {w : Waiter} (hp : (s.locals t).phase = .expired w) :
    ∃ s' e, next s (.recheck t) = some (s', e) ∧
      ((e.reply = .returned true ∧ s'.lock.owner = some t ∧ s'.Owns t ∧ s'.lock = s.lock) ∨
        (e.reply = .returned false ∧ ¬ s'.Owns t ∧ s'.lock.normal = s.lock.normal.erase w ∧
          s'.lock.progress = s.lock.progress.erase w ∧ ∀ v ∈ s'.lock.normal ++ s'.lock.progress, v.owner ≠ t)) := by
  have hw : (s.locals t).phase.waitsOn = some w := by rw [hp]; rfl
  have hgr := h.granted t w hw
  refine ⟨_, _, by rw [next, hp], ?_⟩
  by_cases hg : w ∈ s.lock.granted
  · left
    simp [State.recheck, hg, hgr.1.mp hg, State.Owns, Local.acquired]
  · right
    have hq := h.waiting t w hw hg
    have hheld := (h.waits t w hw).2
    have hother : w ∉ s.lock.queue (!w.progress) := fun hm => by
      have := h.kind _ w hm
      cases hpr : w.progress <;> simp [hpr] at this
    have hgone : ∀ v ∈ (s.lock.normal ++ s.lock.progress).erase w, v.owner ≠ t := by
      intro v hv hvt
      have hv' := List.mem_of_mem_erase hv
      have hf : v ∈ (s.lock.normal ++ s.lock.progress).filter (·.owner = t) := by simpa [hvt] using hv'
      rw [h.queuedOnce hw hg, List.mem_singleton] at hf
      subst v
      exact h.nodup_queues.not_mem_erase hv
    cases hpr : w.progress with
    | true =>
      have hn : w ∉ s.lock.normal := by simpa [hpr, Lock.queue] using hother
      have hm : w ∈ s.lock.progress := by simpa [hpr, Lock.queue] using hq
      rw [List.erase_append_right _ hn] at hgone
      simpa [State.recheck, hg, hpr, hm, State.Owns, hheld, List.erase_of_not_mem hn] using hgone
    | false =>
      have hn : w ∉ s.lock.progress := by simpa [hpr, Lock.queue] using hother
      have hm : w ∈ s.lock.normal := by simpa [hpr, Lock.queue] using hq
      rw [List.erase_append_left _ hm] at hgone
      simpa [State.recheck, hg, hpr, hm, State.Owns, hheld, List.erase_of_not_mem hn] using hgone

theorem Inv.nestedRelease {s s' : State} (h : Inv s) {t : Thread} {e : Event}
    (hn : next s (.release t) = some (s', e)) (ho : s.lock.owner = some t) (hd : 1 < s.lock.depth) :
    s'.lock.owner = some t ∧ s'.lock.depth = s.lock.depth - 1 ∧ s'.Owns t ∧ e.handoff = none := by
  simp only [next] at hn
  split at hn
  · rename_i hi
    obtain ⟨hdep, _⟩ := h.idle t ho hi
    have hne : s.lock.depth - 1 ≠ 0 := by omega
    have he : s.release t = (s', e) := Option.some.inj hn
    simp only [State.release, ho, ne_eq, not_true_eq_false, if_false, hne, Prod.mk.injEq] at he
    obtain ⟨rfl, rfl⟩ := he
    simp only [setLocal_lock, State.Owns, setLocal_self, true_and, and_true]
    omega
  · cases hn

theorem Inv.releaseSave_saves {s s' : State} {t : Thread} {e : Event}
    (hn : next s (.releaseSave t) = some (s', e)) (ho : s.lock.owner = some t) :
    e.reply = .saved ⟨s.lock.depth, t, s.lock.ownerProgress⟩ ∧ ¬ s'.Owns t := by
  simp only [next] at hn
  split at hn
  · have he : s.releaseSave t = (s', e) := Option.some.inj hn
    simp only [State.releaseSave, ho, ne_eq, not_true_eq_false, if_false, Prod.mk.injEq] at he
    obtain ⟨rfl, rfl⟩ := he
    simp [State.Owns]
  · cases hn

theorem acquire_outcome {s : State} {t : Thread} {blocking : Bool} {timeout : ℤ} (hmay : blocking = true ∨ timeout = -1)
    (progress : Bool) (resume : Option Saved) :
    ((s.acquire t blocking timeout progress resume).2.reply = resumed resume ∧
        (s.acquire t blocking timeout progress resume).1.lock.owner = some t ∧
        (s.acquire t blocking timeout progress resume).1.locals t = (s.locals t).acquired resume) ∨
      ((s.acquire t blocking timeout progress resume).2.reply = .returned false ∧ blocking = false ∧
        (s.acquire t blocking timeout progress resume).1 = s ∧ ∃ u, u ≠ t ∧ s.lock.owner = some u) ∨
      ((s.acquire t blocking timeout progress resume).2.reply = .blocked ∧
        (s.acquire t blocking timeout progress resume).1.Queued t (timeout != -1) progress resume) := by
  have hraise : ¬(!blocking && timeout != -1) = true := by
    cases hmay with
    | inl h => simp [h]
    | inr h => simp [h]
  unfold State.acquire
  dsimp only
  rw [if_neg hraise]
  by_cases hown : s.lock.owner = some t
  · left
    simp [hown]
  by_cases hfree : s.lock.owner = none
  · left
    simp [hfree]
  obtain ⟨u, hu⟩ := Option.ne_none_iff_exists'.mp hfree
  have hut : u ≠ t := by
    rintro rfl
    exact hown hu
  rw [if_neg hown, if_neg hfree]
  right
  cases blocking with
  | false =>
    left
    exact ⟨rfl, rfl, rfl, u, hut, hu⟩
  | true =>
    right
    refine ⟨rfl, ⟨s.nextIdent, t, progress⟩, by simp, rfl, rfl, ?_⟩
    cases progress <;> simp [Lock.queue]

theorem acquires_spec (s : State) {t : Thread} (hi : (s.locals t).phase = .idle) {blocking : Bool} {timeout : ℤ}
    (hmay : blocking = true ∨ timeout = -1) (progress : Bool) :
    ∃ s' e, next s (.acquire t blocking timeout progress) = some (s', e) ∧
      ((e.reply = .returned true ∧ s'.lock.owner = some t ∧ (s'.locals t).held = (s.locals t).held + 1) ∨
        (e.reply = .returned false ∧ blocking = false ∧ s' = s ∧ ∃ u, u ≠ t ∧ s.lock.owner = some u) ∨
        (e.reply = .blocked ∧ s'.Queued t (timeout != -1) progress none)) := by
  refine ⟨_, _, by rw [next, hi], ?_⟩
  rcases acquire_outcome (s := s) (t := t) hmay progress none with ⟨hr, ho, hl⟩ | h
  · left
    exact ⟨hr, ho, by rw [hl]; rfl⟩
  · right
    exact h

theorem beginsRestore_spec (s : State) {t : Thread} (hi : (s.locals t).phase = .idle) {st : Saved}
    (hst : st ∈ (s.locals t).saved) :
    ∃ s' e, next s (.acquireRestore t st) = some (s', e) ∧
      ((s'.lock.owner = some t ∧ (s'.locals t).phase = .restoring st) ∨ s'.Queued t false st.progress (some st)) := by
  refine ⟨(s.acquire t true (-1) st.progress (some st)).1, (s.acquire t true (-1) st.progress (some st)).2,
    by simp only [next, hi, if_pos hst], ?_⟩
  rcases @acquire_outcome s t true (-1) (.inl rfl) st.progress (some st) with ⟨_, ho, hl⟩ | ⟨_, hb, _⟩ | ⟨_, hq⟩
  · left
    exact ⟨ho, by rw [hl]; rfl⟩
  · cases hb
  · right
    exact hq

theorem lastRelease_spec {s : State} (h : Inv s) {t : Thread} (hi : (s.locals t).phase = .idle)
    (ho : s.lock.owner = some t) (hd : s.lock.depth = 1) :
    ∃ s' e, next s (.release t) = some (s', e) ∧ ¬ s'.Owns t ∧
      ((e.handoff = none ∧ s'.lock.owner = none) ∨
        ∃ w b, e.handoff = some w ∧ w ∈ s.lock.queue b ∧ s'.lock.owner = some w.owner ∧ w ∈ s'.lock.granted) := by
  have hheld : (s.locals t).held = 1 := by
    rw [← (h.idle t ho hi).1, hd]
  have hrel : s.release t = ({ s with lock := (Lock.handoff { s.lock with depth := 0 }).1 }.setLocal t
      { s.locals t with held := 0 }, ⟨.done, (Lock.handoff { s.lock with depth := 0 }).2⟩) := by
    simp [State.release, ho, hd, hheld]
  refine ⟨_, _, by rw [next, hi], ?_⟩
  rw [hrel]
  refine ⟨by simp [State.Owns], ?_⟩
  rcases handoff_grants { s.lock with depth := 0 } with ⟨b, w, rest, hw, _, _, hown, _, hgr, hh⟩ | ⟨_, _, hown, _, hh⟩
  · right
    refine ⟨w, b, hh, ?_, hown, ?_⟩
    · have hq : w ∈ Lock.queue { s.lock with depth := 0 } b := by simp [hw]
      exact hq
    · rw [setLocal_lock]
      simp [hgr]
  · left
    exact ⟨hh, hown⟩

theorem wakes_spec {s : State} (h : Inv s) {t : Thread} {w : Waiter} {timed : Bool} {resume : Option Saved}
    (hp : (s.locals t).phase = .waiting w timed resume) (hg : w ∈ s.lock.granted) :
    ∃ s' e, next s (.wake t) = some (s', e) ∧ s'.lock = s.lock ∧ s'.lock.owner = some t ∧
      (resume = none → e.reply = .returned true ∧ s'.Owns t) ∧
      ∀ st, resume = some st → (s'.locals t).phase = .restoring st := by
  have hw : (s.locals t).phase.waitsOn = some w := by rw [hp]; rfl
  have hown := (h.granted t w hw).1.mp hg
  refine ⟨s.setLocal t ((s.locals t).acquired resume), ⟨resumed resume, none⟩, by simp only [next, hp, if_pos hg], rfl,
    hown, ?_, ?_⟩
  · rintro rfl
    exact ⟨rfl, by simp [State.Owns, Local.acquired]⟩
  · rintro st rfl
    simp [Local.acquired]

def Action.thread : Action → Thread
  | .acquire t _ _ _ | .wake t | .expire t | .recheck t | .release t | .releaseSave t | .acquireRestore t _
  | .storeDepth t => t

theorem acquire_other (s : State) {t u : Thread} (hu : u ≠ t) (blocking : Bool) (timeout : ℤ) (progress : Bool)
    (resume : Option Saved) : (s.acquire t blocking timeout progress resume).1.locals u = s.locals u := by
  unfold State.acquire
  dsimp only
  split_ifs <;> simp [hu]

theorem recheck_other (s : State) {t u : Thread} (hu : u ≠ t) (w : Waiter) :
    (s.recheck t w).1.locals u = s.locals u := by
  unfold State.recheck
  dsimp only
  split_ifs <;> simp [State.setLocal, hu]

theorem release_other (s : State) {t u : Thread} (hu : u ≠ t) : (s.release t).1.locals u = s.locals u := by
  unfold State.release
  dsimp only
  split_ifs <;> simp [hu]

theorem releaseSave_other (s : State) {t u : Thread} (hu : u ≠ t) : (s.releaseSave t).1.locals u = s.locals u := by
  unfold State.releaseSave
  dsimp only
  split_ifs <;> simp [hu]

theorem next_other {s s' : State} {a : Action} {e : Event} (hn : next s a = some (s', e)) {u : Thread}
    (hu : u ≠ a.thread) :
    s'.locals u = s.locals u := by
  cases a with
  | acquire t blocking timeout progress =>
    simp only [next] at hn
    split at hn
    · obtain rfl := congrArg Prod.fst (Option.some.inj hn)
      exact acquire_other s hu blocking timeout progress none
    · cases hn
  | wake t =>
    simp only [next] at hn
    split at hn
    · split_ifs at hn
      obtain rfl := congrArg Prod.fst (Option.some.inj hn)
      exact setLocal_other s _ hu
    · cases hn
  | expire t =>
    simp only [next] at hn
    split at hn
    · obtain rfl := congrArg Prod.fst (Option.some.inj hn)
      exact setLocal_other s _ hu
    · cases hn
  | recheck t =>
    simp only [next] at hn
    split at hn
    · obtain rfl := congrArg Prod.fst (Option.some.inj hn)
      exact recheck_other s hu _
    · cases hn
  | release t =>
    simp only [next] at hn
    split at hn
    · obtain rfl := congrArg Prod.fst (Option.some.inj hn)
      exact release_other s hu
    · cases hn
  | releaseSave t =>
    simp only [next] at hn
    split at hn
    · obtain rfl := congrArg Prod.fst (Option.some.inj hn)
      exact releaseSave_other s hu
    · cases hn
  | acquireRestore t st =>
    simp only [next] at hn
    split at hn
    · split_ifs at hn
      obtain rfl := congrArg Prod.fst (Option.some.inj hn)
      exact acquire_other s hu true (-1) st.progress (some st)
    · cases hn
  | storeDepth t =>
    simp only [next] at hn
    split at hn
    · obtain rfl := congrArg Prod.fst (Option.some.inj hn)
      exact setLocal_other _ _ hu
    · cases hn

theorem leavesRestore_spec {s s' : State} {t : Thread} {st : Saved} {a : Action} {e : Event}
    (hr : (s.locals t).phase.restores = some st) (hn : next s a = some (s', e)) :
    (s'.locals t).phase.restores = some st ∨ (a = .storeDepth t ∧ (s.locals t).phase = .restoring st) := by
  by_cases ht : t = a.thread
  · have hidle : (s.locals t).phase ≠ .idle := by
      intro hi
      rw [hi] at hr
      cases hr
    cases a with
    | wake u =>
      obtain rfl : t = u := ht
      simp only [next] at hn
      split at hn
      · rename_i w timed resume hp
        split_ifs at hn
        obtain rfl := congrArg Prod.fst (Option.some.inj hn)
        rw [hp] at hr
        obtain rfl : resume = some st := hr
        left
        simp [Local.acquired, Phase.restores]
      · cases hn
    | expire u =>
      obtain rfl : t = u := ht
      simp only [next] at hn
      split at hn
      · rename_i w hp
        rw [hp] at hr
        cases hr
      · cases hn
    | recheck u =>
      obtain rfl : t = u := ht
      simp only [next] at hn
      split at hn
      · rename_i w hp
        rw [hp] at hr
        cases hr
      · cases hn
    | storeDepth u =>
      obtain rfl : t = u := ht
      simp only [next] at hn
      split at hn
      · rename_i st' hp
        right
        rw [hp] at hr
        obtain rfl := Option.some.inj hr
        exact ⟨rfl, hp⟩
      · cases hn
    | acquire u | release u | releaseSave u | acquireRestore u =>
      obtain rfl : t = u := ht
      cases hp : (s.locals t).phase with
      | idle => exact absurd hp hidle
      | _ =>
        simp only [next, hp] at hn
        cases hn
  · left
    rw [next_other hn ht]
    exact hr

theorem Inv.safe {s : State} (h : Inv s) : Safe s where
  exclusive t u ht hu := by
    have ht' := h.holder t ht
    rw [h.holder u hu] at ht'
    exact (Option.some.inj ht').symm
  recorded := h.holder
  free hn := ⟨h.free hn false, h.free hn true⟩
  queuedOnce _ _ := h.queuedOnce
  grantedGone w hw := ⟨fun hm => (h.queued false w hm).1 hw, fun hm => (h.queued true w hm).1 hw⟩
  timedOut _ _ := h.timedOut
  nestedRelease _ _ _ := h.nestedRelease
  saves _ _ _ := Inv.releaseSave_saves
  restores t st hp := by
    obtain ⟨ho, _, hst⟩ := h.restoring t st hp
    exact ⟨hst, _, _, by rw [next, hp], by simpa [State.storeDepth] using ⟨ho, h.saved t st hst⟩⟩
  acquires _ _ _ progress hi hmay := acquires_spec s hi hmay progress
  lastRelease _ := lastRelease_spec h
  beginsRestore _ _ hi hst := beginsRestore_spec s hi hst
  wakes _ _ _ _ := wakes_spec h
  leavesRestore _ _ _ _ _ := leavesRestore_spec

theorem reachable_inv {s : State} (h : Reachable system s) : Inv s := by
  refine h.invariant ?_ ?_
  · rintro s rfl; exact initial_inv
  · intro s a t hs ha; exact next_inv hs ha

theorem admission_lock_safe {s : State} (h : Reachable system s) : Safe s := (reachable_inv h).safe

theorem admission_lock_safe_race :
    let s := (trace next initial [.acquire 1 true (-1) false, .acquire 1 true (-1) false, .acquire 2 true 5 true,
      .expire 2, .release 1, .release 1]).1
    s.lock.owner = some 2 ∧ (s.locals 2).phase = .expired ⟨0, 2, true⟩ ∧ Safe s :=
  ⟨rfl, rfl, admission_lock_safe ((Reachable.start (T := system) rfl).trace _)⟩

end ClawBox.AdmissionLock
