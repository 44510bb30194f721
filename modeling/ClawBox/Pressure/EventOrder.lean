import ClawBox.Pressure.Frames
import ClawBox.Pressure.Runs

namespace ClawBox.Pressure

open Transition Raising

/-- What was told, and the VMs between a transition and their next generation; only the statements look at it. -/
structure Told where
  -- with the Tool VM registered
  completed : List (String × String) := []
  ended : List (String × String) := []
  moving : List (String × Role) := []

def Told.after (t : Told) (w : World) (out : Outcome) : Action → Told
  | .event session .complete identifier _ _ _ =>
    if (w.vms.get? (session, .tool)).isSome then { t with completed := (session, identifier) :: t.completed } else t
  | .event session .modelEnd identifier _ _ _ => { t with ended := (session, identifier) :: t.ended }
  | .transition session role _ _ => if out.isOk then { t with moving := (session, role) :: t.moving } else t
  | .generation session role _ _ _ => if out.isOk then { t with moving := t.moving.filter (· ≠ (session, role)) } else t
  | _ => t

def watch (o : Options) (s : State × Told) : Action → Option ((State × Told) × Outcome)
  | .unregister .. => none
  | a => (s.1.next o a).map fun x => ((x.1, s.2.after s.1.world x.2 a), x.2)

def watched (o : Options) : System (State × Told) (Action × Outcome) :=
  .ofNext (fun s => s.1.Start ∧ s.2 = {}) (watch o)

structure Lawful (o : Options) (w : World) (t : Told) : Prop where
  completed : ∀ session e, (session, e) ∈ t.completed → ∀ r, w.vms.get? (session, .tool) = some r →
    e ∉ (w.objects r).active.keys ∧ e ∉ (w.objects r).pending.keys
  ended : ∀ session m, (session, m) ∈ t.ended → ∀ role r, w.vms.get? (session, role) = some r →
    m ∉ (w.objects r).waits.keys
  disjoint : ∀ k r, w.vms.get? k = some r → ∀ e ∈ (w.objects r).active.keys, e ∉ (w.objects r).pending.keys
  forecasts : ∀ session e, (session, e) ∈ w.releaseForecasts.keys →
    ∃ r, w.vms.get? (session, .tool) = some r ∧ e ∈ (w.objects r).active.keys
  -- the visit of another VM in the same directory is not one of the moving VM
  moving : ∀ k ∈ t.moving, ∀ r, w.vms.get? k = some r → (w.objects r).phase = .transition ∧
    ∀ p r' x, r' = r ∨ (w.objects r').group ≠ (w.objects r).group →
      ((visit o p r' x).run w).2.leaves (w.objects r).group = w.leaves (w.objects r).group

/-- An execution that runs is not announced again, and a request that ended does not start late without its tombstone.
-/
def VM.takes (vm : VM) (ended : Bool) (kind : Kind) (identifier : String) : Bool :=
  match kind with
  | .ready => vm.role ≠ .tool || (vm.active.get? identifier).isNone
  | .modelStart => !ended || (vm.responses.get? identifier).isSome
  | _ => true

/-- A notification comes when no VM of the session is moving, and every VM takes it. -/
def orderly (s : State × Told) : Action → Bool
  | .event session kind identifier _ _ _ =>
    [Role.runtime, .tool].all fun role =>
      match s.1.world.vms.get? (session, role) with
      | none => true
      | some r => !s.2.moving.contains (session, role) &&
          (s.1.world.objects r).takes (s.2.ended.contains (session, identifier)) kind identifier
  | _ => true

variable {w w' : World} {r : ℕ} {o : Options} {t : Told}

section Event

def World.told (w : World) (r : ℕ) (kind : Kind) (identifier : String) (forecast : Option Forecast) : World :=
  (w.foresee r kind identifier forecast).putVM r ((w.objects r).tell kind identifier).refresh

variable {session identifier : String} {kind : Kind} {role : Role} {now : ℤ} {forecast : Option Forecast}
    {fails : Fails}

theorem eventRole_run (hr : w.vms.get? (session, role) = some r) :
    (eventRole o session kind identifier now forecast role fails).run w =
      if kind = .complete ∨ kind = .modelEnd then (restore o r now fails).run (w.told r kind identifier forecast)
      else (.ok (), w.told r kind identifier forecast) := by
  unfold eventRole
  rw [run_get_bind, hr]
  dsimp only
  rw [run_modify_bind, changeVM, run_modify_bind, run_ite]
  rfl

theorem eventRole_none (hr : w.vms.get? (session, role) = none) :
    (eventRole o session kind identifier now forecast role fails).run w = (.ok (), w) := by
  unfold eventRole
  rw [run_get_bind, hr]
  rfl

theorem eventRole_tends (hr : w.vms.get? (session, role) = some r) :
    Tends r (w.told r kind identifier forecast)
    ((eventRole o session kind identifier now forecast role fails).run w).2 := by
  rw [eventRole_run hr]
  split_ifs
  · exact restore_tends now fails _
  · exact .refl _

theorem tell_modified (vm : VM) : ((vm.tell kind identifier).refresh).modified = vm.modified :=
  (VM.tell_keeps kind identifier vm).2.2.2.2

theorem told_objects (w : World) (r' : ℕ) : (w.told r kind identifier forecast).objects r' =
    if r' = r then ((w.objects r).tell kind identifier).refresh else w.objects r' := by
  rw [World.told, World.objects_putVM]
  rfl

theorem eventRole_untouched (hr : w.vms.get? (session, role) = some r) (hm : (w.objects r).modified.keys = []) :
    ∃ w', (eventRole o session kind identifier now forecast role fails).run w = (.ok (), w') ∧
      (w'.objects r).modified.keys = [] := by
  have htold : ((w.told r kind identifier forecast).objects r).modified.keys = [] := by
    rw [told_objects, if_pos rfl, tell_modified, hm]
  rw [eventRole_run hr]
  split_ifs
  · obtain ⟨w', hrun, -, hmarks⟩ := restore_untouched (o := o) htold now fails
    exact ⟨w', hrun, hmarks⟩
  · exact ⟨_, rfl, htold⟩

theorem tell_active (vm : VM) {e : String} : e ∈ (vm.tell kind identifier).active.keys ↔
    (e ∈ vm.active.keys ∧ ¬ (kind = .complete ∧ vm.role = .tool ∧ e = identifier)) ∨
      (kind = .start ∧ vm.role = .tool ∧ identifier ∈ vm.pending.keys ∧ identifier ∉ vm.finished.keys ∧
        e = identifier) := by
  rw [← PyDict.get?_eq_none, PyDict.mem_keys (d := vm.pending)]
  cases kind <;> simp only [VM.tell]
  case complete =>
    split_ifs with hrole
    · simp [hrole, and_comm]
    · simp [hrole]
  case start =>
    split_ifs with hs
    · simp only [Option.isNone_iff_eq_none] at hs
      simp [hs, or_comm]
    · simp only [Option.isNone_iff_eq_none] at hs
      simp only [false_and, not_false_eq_true, and_true, true_and, iff_self_or]
      intro h
      exact absurd ⟨h.1, h.2.1, h.2.2.1⟩ hs
  all_goals first
    | split_ifs <;> simp
    | simp

theorem tell_waits (vm : VM) {m : String} (h : m ∈ (vm.tell kind identifier).waits.keys) :
    (m ∈ vm.waits.keys ∧ ¬ (kind = .modelEnd ∧ m = identifier)) ∨
      kind = .modelStart ∧ m = identifier ∧ (vm.responses.get? identifier).isSome = false := by
  cases kind with
  | modelStart =>
    simp only [VM.tell] at h
    split_ifs at h with hr
    · exact .inl ⟨h, by simp⟩
    · rw [PySet.mem_keys_add] at h
      cases h with
      | inl hm => exact .inr ⟨rfl, hm, by simpa using hr⟩
      | inr hm => exact .inl ⟨hm, by simp⟩
  | modelEnd =>
    have hm := PySet.mem_keys_discard.1 h
    exact .inl ⟨hm.2, fun hne => hm.1 hne.2⟩
  | ready =>
    simp only [VM.tell] at h
    split_ifs at h <;> exact .inl ⟨h, by simp⟩
  | start =>
    simp only [VM.tell] at h
    split_ifs at h <;> exact .inl ⟨h, by simp⟩
  | complete =>
    simp only [VM.tell] at h
    split_ifs at h <;> exact .inl ⟨h, by simp⟩

theorem tell_finished (vm : VM) {e : String}
    (h : e ∈ vm.finished.keys ∨ kind = .complete ∧ vm.role = .tool ∧ e = identifier) :
    e ∈ (vm.tell kind identifier).finished.keys := by
  cases kind with
  | complete =>
    simp only [VM.tell]
    split_ifs with hrole
    · rw [PySet.mem_keys_add]
      rcases h with h | ⟨-, -, rfl⟩
      · exact .inr h
      · exact .inl rfl
    · rcases h with h | ⟨-, htool, -⟩
      · exact h
      · exact absurd htool hrole
  | _ =>
    have hold : e ∈ vm.finished.keys := h.resolve_right (by simp)
    simp only [VM.tell]
    first
      | exact hold
      | (split_ifs <;> exact hold)

structure VM.Ordered (vm : VM) : Prop where
  disjoint : ∀ e ∈ vm.active.keys, e ∉ vm.pending.keys
  finished : ∀ e ∈ vm.finished.keys, e ∉ vm.active.keys ∧ e ∉ vm.pending.keys

theorem VM.Ordered.tell {vm : VM} (h : vm.Ordered) {ended : Bool} (ht : vm.takes ended kind identifier = true) :
    (vm.tell kind identifier).Ordered := by
  cases kind with
  | modelStart =>
    simp only [VM.tell]
    split_ifs
    · exact h
    · exact ⟨h.disjoint, h.finished⟩
  | modelEnd => exact ⟨h.disjoint, h.finished⟩
  | ready =>
    simp only [VM.tell]
    split_ifs with hready
    · have hidle : identifier ∉ vm.active.keys := by
        rw [← PyDict.get?_eq_none]
        simpa [VM.takes, hready.1] using ht
      have hlive : identifier ∉ vm.finished.keys := by
        rw [← PyDict.get?_eq_none]
        simpa using hready.2
      constructor
      · intro e he hp
        rcases PySet.mem_keys_add.1 hp with rfl | hp
        · exact hidle he
        · exact h.disjoint e he hp
      · intro e he
        refine ⟨(h.finished e he).1, fun hp => ?_⟩
        rcases PySet.mem_keys_add.1 hp with rfl | hp
        · exact hlive he
        · exact (h.finished e he).2 hp
    · exact h
  | start =>
    simp only [VM.tell]
    split_ifs with hstart
    · have hlive : identifier ∉ vm.finished.keys := by
        rw [← PyDict.get?_eq_none]
        simpa using hstart.2.2
      constructor
      · intro e he hp
        obtain ⟨hne, hp⟩ := PySet.mem_keys_discard.1 hp
        exact h.disjoint e ((PySet.mem_keys_add.1 he).resolve_left hne) hp
      · intro e he
        refine ⟨fun ha => ?_, fun hp => (h.finished e he).2 (PySet.mem_keys_discard.1 hp).2⟩
        rcases PySet.mem_keys_add.1 ha with rfl | ha
        · exact hlive he
        · exact (h.finished e he).1 ha
    · exact h
  | complete =>
    simp only [VM.tell]
    split_ifs with hrole
    · constructor
      · intro e he hp
        exact h.disjoint e (PySet.mem_keys_discard.1 he).2 (PySet.mem_keys_discard.1 hp).2
      · intro e he
        rcases PySet.mem_keys_add.1 he with rfl | he
        · exact ⟨fun ha => (PySet.mem_keys_discard.1 ha).1 rfl, fun hp => (PySet.mem_keys_discard.1 hp).1 rfl⟩
        · exact ⟨fun ha => (h.finished e he).1 (PySet.mem_keys_discard.1 ha).2,
            fun hp => (h.finished e he).2 (PySet.mem_keys_discard.1 hp).2⟩
    · exact h

theorem mem_forecastAfter {vm : VM} {d : PyDict (String × String) Forecast} {k : String × String}
    (h : k ∈ (forecastAfter vm kind identifier forecast d).keys) :
    (k ∈ d.keys ∧ ¬ (kind = .complete ∧ vm.role = .tool ∧ k = (vm.session, identifier))) ∨
      k = (vm.session, identifier) ∧ vm.role = .tool ∧ identifier ∈ (vm.tell kind identifier).active.keys := by
  cases kind with
  | start =>
    simp only [forecastAfter] at h
    split_ifs at h with hstart
    · cases forecast with
      | none => exact .inl ⟨h, by simp⟩
      | some f =>
        rcases PyDict.mem_keys_set.1 h with rfl | h
        · refine .inr ⟨rfl, hstart.1, ?_⟩
          simp [VM.tell, hstart]
        · exact .inl ⟨h, by simp⟩
    · exact .inl ⟨h, by simp⟩
  | complete =>
    simp only [forecastAfter] at h
    split_ifs at h with hrole
    · have hk := PyDict.mem_keys_pop.1 h
      exact .inl ⟨hk.2, fun hc => hk.1 hc.2.2⟩
    · exact .inl ⟨h, fun hc => hrole hc.2.1⟩
  | _ => exact .inl ⟨h, by simp⟩

end Event

structure Fits (t : Told) (k : String × Role) (vm : VM) : Prop where
  key : (vm.session, vm.role) = k
  ordered : vm.Ordered
  runtime : k.2 = .runtime → vm.modified.keys = []
  completed : k.2 = .tool → ∀ e, (k.1, e) ∈ t.completed → e ∈ vm.finished.keys
  ended : ∀ m, (k.1, m) ∈ t.ended → m ∉ vm.waits.keys
  moving : k ∈ t.moving → vm.phase = .transition ∧ vm.modified.keys = []

structure Kept (w : World) (t : Told) : Prop where
  fresh : ∀ k r, w.vms.get? k = some r → r < w.created
  fits : ∀ k r, w.vms.get? k = some r → Fits t k (w.objects r)
  known : ∀ session e, (session, e) ∈ t.completed → (w.vms.get? (session, .tool)).isSome
  forecasts : ∀ session e, (session, e) ∈ w.releaseForecasts.keys →
    ∃ r, w.vms.get? (session, .tool) = some r ∧ e ∈ (w.objects r).active.keys

theorem Fits.role {k : String × Role} {vm : VM} (h : Fits t k vm) : vm.role = k.2 := congrArg Prod.snd h.key

theorem Fits.session {k : String × Role} {vm : VM} (h : Fits t k vm) : vm.session = k.1 := congrArg Prod.fst h.key

section Kept

variable {k : String × Role} {vm : VM} {session identifier : String} {kind : Kind} {role : Role} {now : ℤ}
  {forecast : Option Forecast} {fails : Fails} {out : Outcome}

theorem Fits.moved (h : Fits t k vm) {since : Option ℤ} {cooldown : ℤ} {marks : PySet Control}
    (hm : vm.role = .runtime ∨ vm.phase = .transition → vm.modified.keys = [] → marks.keys = []) :
    Fits t k { vm with actionSince := since, cooldownUntil := cooldown, modified := marks } where
  key := h.key
  ordered := ⟨h.ordered.disjoint, h.ordered.finished⟩
  runtime hk := hm (.inl (h.role.trans hk)) (h.runtime hk)
  completed := h.completed
  ended := h.ended
  moving hk := ⟨(h.moving hk).1, hm (.inr (h.moving hk).1) (h.moving hk).2⟩

theorem Kept.key_unique (h : Kept w t) {k' : String × Role} (hr : w.vms.get? k = some r)
    (hr' : w.vms.get? k' = some r) :
    k = k' :=
  (h.fits k r hr).key.symm.trans (h.fits k' r hr').key

theorem Kept.change (h : Kept w t) (hvms : w'.vms = w.vms) (hcreated : w'.created = w.created)
    (hothers : ∀ r', r' ≠ r → w'.objects r' = w.objects r')
    (hfits : ∀ k, w.vms.get? k = some r → Fits t k (w'.objects r)) (hforecasts :
      ∀ session e, (session, e) ∈ w'.releaseForecasts.keys →
      ∃ r', w.vms.get? (session, .tool) = some r' ∧ e ∈ (w'.objects r').active.keys) : Kept w' t where
  fresh k r' hr' := by
    rw [hvms] at hr'
    rw [hcreated]
    exact h.fresh k r' hr'
  fits k r' hr' := by
    rw [hvms] at hr'
    by_cases he : r' = r
    · subst he
      exact hfits k hr'
    · rw [hothers r' he]
      exact h.fits k r' hr'
  known session e he := by
    rw [hvms]
    exact h.known session e he
  forecasts := by
    rw [hvms]
    exact hforecasts

theorem Kept.tends (h : Kept w t) (ht : Tends r w w')
    (hm : (w.objects r).role = .runtime ∨ (w.objects r).phase = .transition → (w.objects r).modified.keys = [] →
      (w'.objects r).modified.keys = []) : Kept w' t := by
  obtain ⟨since, cooldown, marks, hvm⟩ := ht.vm
  apply h.change ht.vms ht.created ht.others
  · intro k hr
    rw [hvm] at hm ⊢
    exact (h.fits k r hr).moved hm
  · intro session e he
    rw [ht.forecasts] at he
    obtain ⟨r', hr', hactive⟩ := h.forecasts session e he
    refine ⟨r', hr', ?_⟩
    by_cases hsame : r' = r
    · subst hsame
      rw [hvm]
      exact hactive
    · rw [ht.others r' hsame]
      exact hactive

theorem Kept.restore (h : Kept w t) (r : ℕ) (now : ℤ) (fails : Fails) : Kept ((restore o r now fails).run w).2 t := by
  apply h.tends (restore_tends now fails w)
  intro _ hm
  obtain ⟨w', hrun, -, hmarks⟩ := restore_untouched (o := o) hm now fails
  rw [hrun]
  exact hmarks

theorem Kept.visit (h : Kept w t) (p : Poll) (r : ℕ) (x : Glance) : Kept ((visit o p r x).run w).2 t := by
  apply h.tends (visit_tends p x w)
  intro hidle hm
  refine (visit_untouched (o := o) hm ?_ p x).2
  cases hidle with
  | inl hrole => exact .inl (by simp [hrole])
  | inr hphase => exact .inr (by simp [hphase])

theorem Kept.restoreIfKept (h : Kept w t) (r : ℕ) (now : ℤ) (fails : Fails) :
    Kept ((restoreIfKept o r now fails).run w).2 t := by
  unfold Pressure.restoreIfKept
  rw [run_get_bind, run_ite]
  split_ifs
  · exact h
  · exact h.restore r now fails

theorem Kept.told (h : Kept w t) (hr : w.vms.get? (session, role) = some r) (hmoving : (session, role) ∉ t.moving)
    (ht : (w.objects r).takes (t.ended.contains (session, identifier)) kind identifier = true) :
    Kept (w.told r kind identifier forecast) t := by
  have hfit := h.fits _ r hr
  have hself : (w.told r kind identifier forecast).objects r = ((w.objects r).tell kind identifier).refresh := by
    rw [told_objects, if_pos rfl]
  refine h.change (r := r) rfl rfl ?_ ?_ ?_
  · intro r' hr'
    rw [told_objects, if_neg hr']
  · intro k hk
    obtain rfl := h.key_unique hr hk
    obtain ⟨hsession, hrole, -⟩ := VM.tell_keeps kind identifier (w.objects r)
    rw [hself]
    refine ⟨?_, ⟨(hfit.ordered.tell ht).disjoint, (hfit.ordered.tell ht).finished⟩, ?_, ?_, ?_, ?_⟩
    · rw [← hfit.key]
      exact Prod.ext hsession hrole
    · intro hk
      rw [tell_modified]
      exact hfit.runtime hk
    · intro hk e he
      exact tell_finished _ (.inl (hfit.completed hk e he))
    · intro m hm hwaits
      rcases tell_waits (w.objects r) hwaits with ⟨hold, -⟩ | ⟨rfl, rfl, hresponses⟩
      · exact hfit.ended m hm hold
      · have hended : t.ended.contains (session, m) = true := List.contains_iff_mem.2 hm
        rw [VM.takes, hended, hresponses] at ht
        cases ht
    · exact fun hk => absurd hk hmoving
  · intro session' e he
    rcases mem_forecastAfter he with ⟨hold, hne⟩ | ⟨heq, htool, hactive⟩
    · obtain ⟨r', hr', hactive⟩ := h.forecasts session' e hold
      refine ⟨r', hr', ?_⟩
      by_cases hsame : r' = r
      · subst hsame
        rw [hself]
        refine (tell_active _).2 (.inl ⟨hactive, fun hc => hne ⟨hc.1, hc.2.1, ?_⟩⟩)
        rw [(h.fits _ r' hr').session, hc.2.2]
      · rw [told_objects, if_neg hsame]
        exact hactive
    · obtain ⟨rfl, rfl⟩ := Prod.mk.inj heq
      refine ⟨r, ?_, by rw [hself]; exact hactive⟩
      rw [hfit.session, ← hr, ← htool, hfit.role]

theorem eventRole_shape (hr : w.vms.get? (session, role) = some r) : ∃ since cooldown marks,
    ((eventRole o session kind identifier now forecast role fails).run w).2.objects r =
      { ((w.objects r).tell kind identifier).refresh with
        actionSince := since, cooldownUntil := cooldown, modified := marks } := by
  have htends : Tends r (w.told r kind identifier forecast)
      ((eventRole o session kind identifier now forecast role fails).run w).2 :=
    eventRole_tends hr
  obtain ⟨since, cooldown, marks, hvm⟩ := htends.vm
  rw [told_objects, if_pos rfl] at hvm
  exact ⟨since, cooldown, marks, hvm⟩

theorem eventRole_others (h : ∀ r', w.vms.get? (session, role) = some r' → r' ≠ r) :
    ((eventRole o session kind identifier now forecast role fails).run w).2.objects r = w.objects r := by
  cases hr : w.vms.get? (session, role) with
  | none => rw [eventRole_none hr]
  | some r' =>
    have hne := h r' hr
    rw [(eventRole_tends hr).others r hne.symm, told_objects, if_neg hne.symm]

theorem eventRole_vms : ((eventRole o session kind identifier now forecast role fails).run w).2.vms = w.vms := by
  cases hr : w.vms.get? (session, role) with
  | none => rw [eventRole_none hr]
  | some r => exact (eventRole_tends hr).vms

theorem Kept.eventRole (h : Kept w t) (ho : ∀ r, w.vms.get? (session, role) = some r → (session, role) ∉ t.moving ∧
      (w.objects r).takes (t.ended.contains (session, identifier)) kind identifier = true) :
    Kept ((eventRole o session kind identifier now forecast role fails).run w).2 t := by
  cases hr : w.vms.get? (session, role) with
  | none =>
    rw [eventRole_none hr]
    exact h
  | some r =>
    have htold : Kept (w.told r kind identifier forecast) t := h.told hr (ho r hr).1 (ho r hr).2
    rw [eventRole_run hr]
    split_ifs
    · exact htold.restore r now fails
    · exact htold

theorem event_run {fails : Role → Fails} (h : Kept w t) :
    (event o session kind identifier now forecast fails).run w =
      (eventRole o session kind identifier now forecast .tool (fails .tool)).run
        ((eventRole o session kind identifier now forecast .runtime (fails .runtime)).run w).2 := by
  cases hr : w.vms.get? (session, .runtime) with
  | none =>
    rw [eventRole_none hr]
    exact run_bind_ok (eventRole_none hr) _
  | some r =>
    obtain ⟨w', hrun, -⟩ : ∃ w', (eventRole o session kind identifier now forecast .runtime (fails .runtime)).run w =
      (.ok (), w') ∧
        (w'.objects r).modified.keys = [] := eventRole_untouched hr ((h.fits _ r hr).runtime rfl)
    rw [hrun]
    exact run_bind_ok hrun _

variable (o identifier kind now forecast) in
theorem event_shape (fails : Role → Fails) (h : Kept w t) (hr : w.vms.get? (session, role) = some r) :
    ∃ since cooldown marks, ((event o session kind identifier now forecast fails).run w).2.objects r =
      { ((w.objects r).tell kind identifier).refresh with
        actionSince := since, cooldownUntil := cooldown, modified := marks } := by
  rw [event_run h]
  have hrole : ∀ role' r', w.vms.get? (session, role') = some r' → role' ≠ role → r' ≠ r := by
    rintro role' r' hr' hne rfl
    exact hne (congrArg Prod.snd (h.key_unique hr' hr))
  cases role with
  | runtime =>
    rw [eventRole_others]
    · exact eventRole_shape hr
    · intro r' hr'
      rw [eventRole_vms] at hr'
      exact hrole .tool r' hr' (by decide)
  | tool =>
    have hother : ((eventRole o session kind identifier now forecast .runtime (fails .runtime)).run w).2.objects r =
        w.objects r := eventRole_others fun r' hr' => hrole .runtime r' hr' (by decide)
    rw [← hother]
    apply eventRole_shape
    rw [eventRole_vms, hr]

theorem event_vms {fails : Role → Fails} (h : Kept w t) :
    ((event o session kind identifier now forecast fails).run w).2.vms = w.vms := by
  rw [event_run h, eventRole_vms, eventRole_vms]

theorem orderly_event {s : State × Told} {fails : Role → Fails} :
    orderly s (.event session kind identifier now forecast fails) = true ↔
    ∀ role r, s.1.world.vms.get? (session, role) = some r → (session, role) ∉ s.2.moving ∧
      (s.1.world.objects r).takes (s.2.ended.contains (session, identifier)) kind identifier = true := by
  have hrole : ∀ role, (match s.1.world.vms.get? (session, role) with
      | none => true
      | some r => !s.2.moving.contains (session, role) &&
          (s.1.world.objects r).takes (s.2.ended.contains (session, identifier)) kind identifier) = true ↔
      ∀ r, s.1.world.vms.get? (session, role) = some r → (session, role) ∉ s.2.moving ∧
        (s.1.world.objects r).takes (s.2.ended.contains (session, identifier)) kind identifier = true := by
    intro role
    cases s.1.world.vms.get? (session, role) with
    | none => simp
    | some r => simp
  simp only [orderly, List.all_cons, List.all_nil, Bool.and_true, Bool.and_eq_true, hrole]
  constructor
  · rintro ⟨hruntime, htool⟩ role
    cases role with
    | runtime => exact hruntime
    | tool => exact htool
  · exact fun h => ⟨h .runtime, h .tool⟩

theorem Kept.event {fails : Role → Fails} (h : Kept w t) (ho : ∀ role r, w.vms.get? (session, role) = some r →
      (session, role) ∉ t.moving ∧ (w.objects r).takes (t.ended.contains (session, identifier)) kind identifier =
      true) :
    Kept ((event o session kind identifier now forecast fails).run w).2 t := by
  rw [event_run h]
  apply (h.eventRole (ho .runtime)).eventRole
  intro r hr
  rw [eventRole_vms] at hr
  rw [eventRole_others]
  · exact ho .tool r hr
  · rintro r' hr' rfl
    have hkey := h.key_unique hr hr'
    simp at hkey

theorem Kept.retell (h : Kept w t) {t' : Told} (hfits : ∀ k r, w.vms.get? k = some r → Fits t' k (w.objects r))
    (hknown : ∀ session e, (session, e) ∈ t'.completed → (w.vms.get? (session, .tool)).isSome) : Kept w t' :=
  ⟨h.fresh, hfits, hknown, h.forecasts⟩

theorem Fits.phase (h : Fits t k vm) {t' : Told} (p : Phase) (hc : t'.completed = t.completed) (he : t'.ended = t.ended)
    (hm : k ∈ t'.moving → p = .transition ∧ vm.modified.keys = []) : Fits t' k { vm with phase := p } where
  key := h.key
  ordered := ⟨h.ordered.disjoint, h.ordered.finished⟩
  runtime := h.runtime
  completed := by
    rw [hc]
    exact h.completed
  ended := by
    rw [he]
    exact h.ended
  moving := hm

theorem Kept.phase (h : Kept w t) (hr : w.vms.get? k = some r) {t' : Told} {f : VM → VM} {p : Phase}
    (hf : ∃ generation sandbox cooldown, f (w.objects r) =
      { w.objects r with phase := p, generation := generation, sandbox := sandbox, cooldownUntil := cooldown })
    (hc : t'.completed = t.completed) (he : t'.ended = t.ended) (hm : ∀ k', k' ∈ t'.moving → k' = k ∨ k' ∈ t.moving)
    (hk : k ∈ t'.moving → p = .transition ∧ (w.objects r).modified.keys = []) :
      Kept (w.putVM r (f (w.objects r))) t' := by
  obtain ⟨generation, sandbox, cooldown, hvm⟩ := hf
  have hobjects : ∀ r', (w.putVM r (f (w.objects r))).objects r' = if r' = r then f (w.objects r) else w.objects r' :=
    fun r' => w.objects_putVM r r' _
  refine ⟨h.fresh, ?_, ?_, ?_⟩
  · intro k' r' hr'
    rw [hobjects]
    split_ifs with hsame
    · subst hsame
      obtain rfl := h.key_unique hr hr'
      rw [hvm]
      have hfit := (h.fits k r' hr).phase p hc he hk
      exact ⟨hfit.key, ⟨hfit.ordered.disjoint, hfit.ordered.finished⟩, hfit.runtime, hfit.completed, hfit.ended,
        hfit.moving⟩
    · have hne : k' ≠ k := by
        rintro rfl
        exact hsame (Option.some.inj (hr'.symm.trans hr))
      exact (h.fits k' r' hr').phase (w.objects r').phase hc he fun hmem =>
        (h.fits k' r' hr').moving ((hm k' hmem).resolve_left hne)
  · intro session e hmem
    rw [hc] at hmem
    exact h.known session e hmem
  · intro session e hmem
    obtain ⟨r', hr', hactive⟩ := h.forecasts session e hmem
    refine ⟨r', hr', ?_⟩
    rw [hobjects]
    split_ifs with hsame
    · subst hsame
      rw [hvm]
      exact hactive
    · exact hactive

theorem Kept.transition (h : Kept w t) (hrun : (transition o session role now fails).run w = (out, w')) :
    Kept w' (t.after w out (.transition session role now fails)) := by
  unfold Pressure.transition at hrun
  rw [run_get_bind] at hrun
  cases hr : w.vms.get? (session, role) with
  | none =>
    rw [hr] at hrun
    obtain ⟨rfl, rfl⟩ := Prod.mk.inj hrun
    exact h
  | some r =>
    simp only [hr] at hrun
    have hkept := h.restore (o := o) r now fails
    have htends := restore_tends (o := o) (r := r) now fails w
    rcases hres : (Pressure.restore o r now fails).run w with ⟨res, w₁⟩
    rw [hres] at hkept htends
    cases res with
    | error e =>
      rw [run_bind_error hres] at hrun
      obtain ⟨rfl, rfl⟩ := Prod.mk.inj hrun
      exact hkept
    | ok u =>
      rw [run_bind_ok hres] at hrun
      obtain ⟨rfl, rfl⟩ := Prod.mk.inj hrun
      refine hkept.phase (k := (session, role)) (p := .transition) (f := fun vm => { vm with phase := .transition })
        (by rw [htends.vms, hr]) ⟨_, _, _, rfl⟩ rfl rfl ?_ fun _ => ⟨rfl, restore_ok hres⟩
      intro k' hk'
      exact List.mem_cons.1 hk'

theorem Kept.generation {sandbox : String} (h : Kept w t)
    (hrun : (generation o session role sandbox now fails).run w = (out, w')) :
    Kept w' (t.after w out (.generation session role sandbox now fails)) := by
  unfold Pressure.generation at hrun
  rw [run_get_bind] at hrun
  cases hr : w.vms.get? (session, role) with
  | none =>
    rw [hr] at hrun
    obtain ⟨rfl, rfl⟩ := Prod.mk.inj hrun
    exact h
  | some r =>
    simp only [hr] at hrun
    have hkept := h.restore (o := o) r now fails
    have htends := restore_tends (o := o) (r := r) now fails w
    rcases hres : (Pressure.restore o r now fails).run w with ⟨res, w₁⟩
    rw [hres] at hkept htends
    cases res with
    | error e =>
      rw [run_bind_error hres] at hrun
      obtain ⟨rfl, rfl⟩ := Prod.mk.inj hrun
      exact hkept
    | ok u =>
      rw [run_bind_ok hres] at hrun
      obtain ⟨rfl, rfl⟩ := Prod.mk.inj hrun
      refine hkept.phase (k := (session, role)) (f := VM.renew sandbox (now + o.cooldown))
        (by rw [htends.vms, hr]) ⟨_, _, _, rfl⟩ rfl rfl ?_ ?_
      · exact fun k' hk' => .inr (List.mem_filter.1 hk').1
      · intro hmem
        exact absurd (List.mem_filter.1 hmem).2 (by simp)

theorem Kept.enter (h : Kept w t) (x : Registration) (saved : Settings) :
    Kept (enter x saved (w.vms.get? (x.session, x.role)) w) t := by
  cases hp : w.vms.get? (x.session, x.role) with
  | some r =>
    have hget : ∀ k, (Pressure.enter x saved (some r) w).vms.get? k = w.vms.get? k := by
      intro k
      simp only [Pressure.enter, PyDict.get?_set]
      split_ifs with hk
      · subst hk
        rw [hp]
        rfl
      · rfl
    have hobjects : ∀ r', (Pressure.enter x saved (some r) w).objects r' = if r' = r then
        { w.objects r with group := x.group, node := x.node, saved := saved, cpuIdle := x.cpuIdle } else w.objects
          r' := by
      intro r'
      simp [Pressure.enter, Function.update_apply]
    refine ⟨?_, ?_, ?_, ?_⟩
    · intro k r' hr'
      rw [hget] at hr'
      exact h.fresh k r' hr'
    · intro k r' hr'
      rw [hget] at hr'
      rw [hobjects]
      have hfit := h.fits k r' hr'
      split_ifs with hsame
      · subst hsame
        exact ⟨hfit.key, ⟨hfit.ordered.disjoint, hfit.ordered.finished⟩, hfit.runtime, hfit.completed, hfit.ended,
          hfit.moving⟩
      · exact hfit
    · intro session e he
      rw [hget]
      exact h.known session e he
    · intro session e he
      obtain ⟨r', hr', hactive⟩ := h.forecasts session e he
      refine ⟨r', by rw [hget, hr'], ?_⟩
      rw [hobjects]
      split_ifs with hsame
      · subst hsame
        exact hactive
      · exact hactive
  | none =>
    have hget : ∀ k, (Pressure.enter x saved none w).vms.get? k =
        if k = (x.session, x.role) then some w.created else w.vms.get? k := by
      intro k
      simp only [Pressure.enter, PyDict.get?_set]
      rfl
    have hold : ∀ k r', w.vms.get? k = some r' → (Pressure.enter x saved none w).objects r' = w.objects r' := by
      intro k r' hr'
      have hne := (h.fresh k r' hr').ne
      simp [Pressure.enter, hne]
    have hnew : (Pressure.enter x saved none w).objects w.created =
        { session := x.session, role := x.role, group := x.group, node := x.node, saved := saved,
          cpuIdle := x.cpuIdle } := by
      simp [Pressure.enter]
    refine ⟨?_, ?_, ?_, ?_⟩
    · intro k r' hr'
      rw [hget] at hr'
      change r' < w.created + 1
      split_ifs at hr' with hk
      · obtain rfl := Option.some.inj hr'
        exact Nat.lt_succ_self _
      · exact (h.fresh k r' hr').trans (Nat.lt_succ_self _)
    · intro k r' hr'
      rw [hget] at hr'
      split_ifs at hr' with hk
      · obtain rfl := Option.some.inj hr'
        rw [hnew, hk]
        refine ⟨rfl, ⟨fun e he => absurd he List.not_mem_nil, fun e he => absurd he List.not_mem_nil⟩, fun _ => rfl, ?_,
          fun _ _ => List.not_mem_nil, fun _ => ⟨rfl, rfl⟩⟩
        intro htool e he
        have hknown := h.known x.session e he
        rw [← show (x.session, x.role) = (x.session, Role.tool) from Prod.ext rfl htool, hp] at hknown
        cases hknown
      · rw [hold k r' hr']
        exact h.fits k r' hr'
    · intro session e he
      have hknown := h.known session e he
      rw [hget]
      split_ifs
      · rfl
      · exact hknown
    · intro session e he
      obtain ⟨r', hr', hactive⟩ := h.forecasts session e he
      refine ⟨r', ?_, by rw [hold _ r' hr']; exact hactive⟩
      rw [hget, if_neg]
      · exact hr'
      · intro hk
        rw [hk, hp] at hr'
        cases hr'

theorem Kept.register (h : Kept w t) (x : Registration) (psiMissing readFails : Bool) :
    Kept ((register o x now fails psiMissing readFails).run w).2 t := by
  have hrest : ∀ w₁, Kept w₁ t → w₁.vms.get? (x.session, x.role) = w.vms.get? (x.session, x.role) →
      Kept (((do
        if x.role = .tool ∧ psiMissing then Raising.raise .missingPsi
        else do
          let w' ← get
          let leaf := w'.leaves x.group
          if readFails ∨ leaf.present = false then Raising.raise .io
          else if x.cpuIdle ∧ leaf.idle = false then Raising.raise .notIdle
          else if leaf.settings ≠ defaultSettings x.cpuIdle ∨ leaf.high.isSome then Raising.raise .nondefaultControls
          else modify (Pressure.enter x leaf.settings (w.vms.get? (x.session, x.role))) : Step Unit).run w₁).2) t := by
    intro w₁ hkept hsame
    rw [run_ite]
    split_ifs
    · exact hkept
    · rw [run_get_bind]
      dsimp only
      rw [run_ite, run_ite, run_ite, ← hsame]
      split_ifs
      · exact hkept
      · exact hkept
      · exact hkept
      · exact hkept.enter x _
  unfold Pressure.register
  rw [run_get_bind]
  dsimp only
  cases hp : w.vms.get? (x.session, x.role) with
  | none =>
    rw [hp] at hrest
    exact hrest w h hp
  | some r =>
    rw [hp] at hrest
    have hkept := h.restore (o := o) r now fails
    have htends := restore_tends (o := o) (r := r) now fails w
    rcases hres : (Pressure.restore o r now fails).run w with ⟨res, w₁⟩
    rw [hres] at hkept htends
    cases res with
    | error e =>
      have herror : (restorePrevious o (some r) now fails).run w = (.error e, w₁) := hres
      rw [run_bind_error herror]
      exact hkept
    | ok u =>
      have hok : (restorePrevious o (some r) now fails).run w = (.ok u, w₁) := hres
      rw [run_bind_ok hok]
      exact hrest w₁ hkept (by rw [htends.vms, hp])

theorem Kept.told_event {fails : Role → Fails} (h : Kept w t) (ho : ∀ role r, w.vms.get? (session, role) = some r →
      (session, role) ∉ t.moving ∧ (w.objects r).takes (t.ended.contains (session, identifier)) kind identifier =
      true) :
    Kept ((Pressure.event o session kind identifier now forecast fails).run w).2
      (t.after w ((Pressure.event o session kind identifier now forecast fails).run w).1
        (.event session kind identifier now forecast fails)) := by
  have hkept : Kept ((Pressure.event o session kind identifier now forecast fails).run w).2 t := h.event ho
  have hvms : ((Pressure.event o session kind identifier now forecast fails).run w).2.vms = w.vms := event_vms h
  cases kind with
  | complete =>
    cases hr : w.vms.get? (session, .tool) with
    | none => simpa [Told.after, hr] using hkept
    | some r =>
      have htold : t.after w ((Pressure.event o session .complete identifier now forecast fails).run w).1
          (.event session .complete identifier now forecast fails) =
          { t with completed := (session, identifier) :: t.completed } := by
        simp [Told.after, hr]
      rw [htold]
      apply hkept.retell
      · intro k r' hr'
        have hfit := hkept.fits k r' hr'
        refine ⟨hfit.key, hfit.ordered, hfit.runtime, ?_, hfit.ended, hfit.moving⟩
        intro hk e he
        rcases List.mem_cons.1 he with heq | hold
        · obtain ⟨hsession, rfl⟩ := Prod.mk.inj heq
          have hkey : k = (session, .tool) := Prod.ext hsession hk
          rw [hvms, hkey] at hr'
          obtain ⟨since, cooldown, marks, hshape⟩ := event_shape o e .complete now forecast fails h hr'
          rw [hshape]
          exact tell_finished _ (.inr ⟨rfl, (h.fits _ r' hr').role, rfl⟩)
        · exact hfit.completed hk e hold
      · intro session' e he
        rcases List.mem_cons.1 he with heq | hold
        · rw [(Prod.mk.inj heq).1, hvms, hr]
          rfl
        · exact hkept.known session' e hold
  | modelEnd =>
    apply hkept.retell
    · intro k r' hr'
      have hfit := hkept.fits k r' hr'
      refine ⟨hfit.key, hfit.ordered, hfit.runtime, hfit.completed, ?_, hfit.moving⟩
      intro m hm
      rcases List.mem_cons.1 hm with heq | hold
      · obtain ⟨rfl, rfl⟩ := Prod.mk.inj heq
        rw [hvms] at hr'
        obtain ⟨since, cooldown, marks, hshape⟩ := event_shape o m .modelEnd now forecast fails h hr'
        rw [hshape]
        exact fun hwaits => (PySet.mem_keys_discard.1 hwaits).1 rfl
      · exact hfit.ended m hold
    · exact hkept.known
  | _ => exact hkept

end Kept

section Runs

variable {s s' : State} {a : Action} {out : Outcome}

theorem watch_eq {x : (State × Told) × Outcome} (h : watch o (s, t) a = some x) :
    (∀ session now fails, a ≠ .unregister session now fails) ∧ ∃ s' out, s.next o a = some (s', out) ∧
      x = ((s', t.after s.world out a), out) := by
  cases a with
  | unregister session now fails => cases h
  | _ =>
    simp only [watch, Option.map_eq_some_iff] at h
    obtain ⟨y, hy, rfl⟩ := h
    exact ⟨by simp, y.1, y.2, hy, rfl⟩

theorem Kept.leaves (h : Kept w t) (hobjects : w'.objects = w.objects) (hvms : w'.vms = w.vms)
    (hcreated : w'.created = w.created) (hforecasts : w'.releaseForecasts = w.releaseForecasts) : Kept w' t := by
  obtain ⟨hfresh, hfits, hknown, hactive⟩ := h
  constructor
  · rw [hvms, hcreated]
    exact hfresh
  · rw [hvms, hobjects]
    exact hfits
  · rw [hvms]
    exact hknown
  · rw [hvms, hobjects, hforecasts]
    exact hactive

theorem Kept.next (h : Kept s.world t) (ho : orderly (s, t) a = true)
    (hun : ∀ session now fails, a ≠ .unregister session now fails) (hn : s.next o a = some (s', out)) :
    Kept s'.world (t.after s.world out a) := by
  cases a with
  | prepare g leaf =>
    simp only [State.next, State.after] at hn
    split_ifs at hn
    obtain ⟨rfl, -⟩ := Prod.mk.inj (Option.some.inj hn)
    exact h.leaves rfl rfl rfl rfl
  | vanish g =>
    simp only [State.next, State.after] at hn
    obtain ⟨rfl, -⟩ := Prod.mk.inj (Option.some.inj hn)
    exact h.leaves rfl rfl rfl rfl
  | register x now fails psiMissing readFails =>
    obtain ⟨rfl, -⟩ := Prod.mk.inj (Option.some.inj hn)
    exact h.register x psiMissing readFails
  | generation session role sandbox now fails =>
    obtain ⟨rfl, rfl⟩ := Prod.mk.inj (Option.some.inj hn)
    exact h.generation rfl
  | transition session role now fails =>
    obtain ⟨rfl, rfl⟩ := Prod.mk.inj (Option.some.inj hn)
    exact h.transition rfl
  | event session kind identifier now forecast fails =>
    obtain ⟨rfl, rfl⟩ := Prod.mk.inj (Option.some.inj hn)
    exact h.told_event (orderly_event.1 ho)
  | unregister session now fails => exact absurd rfl (hun session now fails)
  | pollVisit r x =>
    simp only [State.next, State.after] at hn
    split at hn
    · rename_i p hp
      split_ifs at hn
      have hkept := h.visit (o := o) p r x
      split at hn
      · rename_i left w hrun
        rw [hrun] at hkept
        obtain ⟨rfl, -⟩ := Prod.mk.inj (Option.some.inj hn)
        exact hkept
      · rename_i e w hrun
        rw [hrun] at hkept
        obtain ⟨rfl, -⟩ := Prod.mk.inj (Option.some.inj hn)
        exact hkept
    · cases hn
  | rescue now fails =>
    simp only [State.next, State.after] at hn
    split at hn
    · rename_i r todo clean hp
      have hkept := h.restoreIfKept (o := o) r now fails
      split at hn
      · rename_i w hrun
        rw [hrun] at hkept
        obtain ⟨rfl, -⟩ := Prod.mk.inj (Option.some.inj hn)
        exact hkept
      · rename_i e w hrun
        rw [hrun] at hkept
        obtain ⟨rfl, -⟩ := Prod.mk.inj (Option.some.inj hn)
        exact hkept
    · cases hn
  | closeVisit i now fails =>
    simp only [State.next, State.after] at hn
    split at hn
    · rename_i r todo hp
      have hkept := h.restoreIfKept (o := o) r now fails
      split at hn
      · rename_i w hrun
        rw [hrun] at hkept
        obtain ⟨rfl, -⟩ := Prod.mk.inj (Option.some.inj hn)
        exact hkept
      · rename_i e w hrun
        rw [hrun] at hkept
        obtain ⟨rfl, -⟩ := Prod.mk.inj (Option.some.inj hn)
        exact hkept
    · cases hn
  | _ =>
    have hworld : s'.world = s.world := by
      simp only [State.next, State.after] at hn
      split at hn
      all_goals first
        | (cases hn; done)
        | (cases hn; rfl)
        | (split_ifs at hn; cases hn; rfl)
    rw [hworld]
    exact h

theorem kept_of_start (h : s.Start) : Kept s.world {} := by
  obtain ⟨⟨leaves, hw⟩, -⟩ := h
  rw [hw]
  refine ⟨?_, ?_, ?_, ?_⟩
  · intro k r hr
    cases hr
  · intro k r hr
    cases hr
  · intro session e he
    cases he
  · intro session e he
    cases he

theorem kept_of_reachable {x : State × Told} (h : Reachable ((watched o).restrict fun x l => orderly x l.1) x) :
    Kept x.1.world x.2 := by
  refine h.invariant (I := fun x => Kept x.1.world x.2) ?_ ?_
  · rintro ⟨s, t⟩ ⟨hs, rfl⟩
    exact kept_of_start hs
  · rintro ⟨s, t⟩ ⟨a, out⟩ ⟨s', t'⟩ hkept ⟨hstep, ho⟩
    obtain ⟨hun, s₁, out₁, hn, heq⟩ := watch_eq hstep
    obtain ⟨hst, rfl⟩ := Prod.mk.inj heq
    obtain ⟨rfl, rfl⟩ := Prod.mk.inj hst
    exact hkept.next ho hun hn

theorem Kept.lawful (h : Kept w t) (o : Options) : Lawful o w t where
  completed session e he r hr := (h.fits _ r hr).ordered.finished e ((h.fits _ r hr).completed rfl e he)
  ended session m hm role r hr := (h.fits _ r hr).ended m hm
  disjoint k r hr := (h.fits k r hr).ordered.disjoint
  forecasts := h.forecasts
  moving k hk r hr := by
    obtain ⟨hphase, hmarks⟩ := (h.fits k r hr).moving hk
    refine ⟨hphase, fun p r' x hr' => ?_⟩
    rcases hr' with rfl | hgroup
    · rw [(visit_untouched (o := o) hmarks (.inr (by simp [hphase])) p x).1]
    · exact (visit_tends p x w).leaves _ hgroup.symm

theorem refresh_phase_ne (vm : VM) : vm.refresh.phase ≠ .transition := by
  unfold VM.refresh
  split_ifs <;> simp

theorem moving_after_event (session : String) (kind : Kind) (identifier : String) (now : ℤ) (forecast : Option Forecast)
    (fails : Role → Fails) :
    (t.after w out (.event session kind identifier now forecast fails)).moving = t.moving := by
  cases kind with
  | complete =>
    simp only [Told.after]
    split_ifs <;> rfl
  | _ => rfl

theorem Kept.disorderly (h : Kept s.world t) (ho : orderly (s, t) a = false) (hn : s.next o a = some (s', out)) :
    ¬ Lawful o s'.world (t.after s.world out a) := by
  cases a with
  | event session kind identifier now forecast fails =>
    intro hl
    obtain ⟨rfl, rfl⟩ := Prod.mk.inj (Option.some.inj hn)
    have hno := mt orderly_event.2 (by rw [ho]; exact Bool.false_ne_true)
    rw [not_forall] at hno
    obtain ⟨role, hno⟩ := hno
    rw [not_forall] at hno
    obtain ⟨r, hno⟩ := hno
    rw [Classical.not_imp, not_and_or, not_not] at hno
    obtain ⟨hr, hno⟩ := hno
    obtain ⟨since, cooldown, marks, hshape⟩ := event_shape o identifier kind now forecast fails h hr
    have hr' : ((Pressure.event o session kind identifier now forecast fails).run s.world).2.vms.get? (session, role) =
        some r := by
      rw [event_vms h, hr]
    have hfit := h.fits _ r hr
    rcases hno with hmoving | htakes
    · have hphase := (hl.moving (session, role) (by rw [moving_after_event]; exact hmoving) r hr').1
      rw [hshape] at hphase
      exact refresh_phase_ne _ hphase
    · cases kind with
      | ready =>
        obtain ⟨htool, hactive⟩ : (s.world.objects r).role = .tool ∧ identifier ∈ (s.world.objects r).active.keys := by
          rw [PyDict.mem_keys]
          simpa [VM.takes, Option.isSome_iff_ne_none] using htakes
        have hlive : ((s.world.objects r).finished.get? identifier).isNone := by
          rw [Option.isNone_iff_eq_none, PyDict.get?_eq_none]
          exact fun hfinished => (hfit.ordered.finished identifier hfinished).1 hactive
        have htell : (s.world.objects r).tell .ready identifier =
            { s.world.objects r with pending := (s.world.objects r).pending.add identifier } := by
          rw [VM.tell, if_pos ⟨htool, hlive⟩]
        have hdisjoint := hl.disjoint (session, role) r hr' identifier
        rw [hshape, htell] at hdisjoint
        exact hdisjoint hactive (PySet.mem_keys_add.2 (.inl rfl))
      | modelStart =>
        obtain ⟨hended, hresponses⟩ : (session, identifier) ∈ t.ended ∧
            ((s.world.objects r).responses.get? identifier).isSome = false := by
          simpa [VM.takes] using htakes
        have htell : (s.world.objects r).tell .modelStart identifier =
            { s.world.objects r with waits := (s.world.objects r).waits.add identifier } := by
          rw [VM.tell, if_neg (by simp [hresponses])]
        have hwaits := hl.ended session identifier hended role r hr'
        rw [hshape, htell] at hwaits
        exact hwaits (PySet.mem_keys_add.2 (.inl rfl))
      | _ => exact htakes rfl
  | _ => cases ho

/-- As long as every notification is orderly the laws hold, whatever order they come in, and they break with the first
one that is not. -/
theorem events_lawful {x : State × Told} (h : Reachable ((watched o).restrict fun x l => orderly x l.1) x) :
    Lawful o x.1.world x.2 ∧ ∀ a y, watch o x a = some y → orderly x a = false → ¬ Lawful o y.1.1.world y.1.2 := by
  have hkept := kept_of_reachable h
  refine ⟨hkept.lawful o, ?_⟩
  intro a y hy ho
  obtain ⟨s, t⟩ := x
  obtain ⟨-, s', out, hn, rfl⟩ := watch_eq hy
  exact hkept.disorderly ho hn

theorem events_lawful_late :
    let x := (trace (guarded orderly (watch State.smallBudget)) (State.bareHost, {})
      [.register State.toolVM 1 (fun _ => false) false false, .generation "a" .tool "vm" 1 (fun _ => false),
        .event "a" .ready "e" 2 none (fun _ _ => false), .event "a" .complete "e" 3 none (fun _ _ => false),
        .event "a" .start "e" 4 none (fun _ _ => false), .transition "a" .tool 5 (fun _ => false)]).1
    x.2.completed = [("a", "e")] ∧ x.2.moving = [("a", .tool)] ∧ Lawful State.smallBudget x.1.world x.2 ∧
      ∀ a y, watch State.smallBudget x a = some y → orderly x a = false →
      ¬ Lawful State.smallBudget y.1.1.world y.1.2 :=
  ⟨by decide +kernel, by decide +kernel, events_lawful ⟨(State.bareHost, {}), _,
    ⟨⟨⟨_, rfl⟩, .inl rfl, fun _ => rfl, rfl⟩, rfl⟩, run_guarded (fun x : State × Told => x.1.Start ∧ x.2 = {})
    (watch State.smallBudget) orderly _ _⟩⟩

end Runs

end ClawBox.Pressure
