import ClawBox.Activity.Machine

namespace ClawBox.Activity

open Admission Policy Transition
open Monitor (Thread)

def Stage.marked : Stage → Bool
  | .restore p | .route p | .begin p => p.earlyActive
  | .acquire _ | .clear | .admitted => true
  | .reenter _ ok => ok
  | _ => false

namespace Task

def session : Task → Session
  | .admission x _ _ | .rollback x | .popped x | .idle x | .settle x _ | .eviction x | .memoryReturn x => x

def claims : Task → Bool
  | .eviction _ | .memoryReturn _ => true
  | _ => false

def marked : Task → Bool
  | .admission _ _ stage => stage.marked
  | _ => false

end Task

namespace State

variable {s t : State} {x y : Session} {e : ExecutionId} {i j : Thread} {k : Task}

def isActive (s : State) (x : Session) : Bool := ((s.sessions.get? x).map (·.toolActive)).getD false

section Updates

variable (s x) (f : SessionState → SessionState) (g : Desk → Desk)

theorem get?_changeSession (y : Session) :
    (s.changeSession x f).sessions.get? y = if y = x then (s.sessions.get? x).map f else s.sessions.get? y := by
  unfold changeSession
  cases h : s.sessions.get? x with
  | none =>
    split_ifs with hy
    · rw [hy, h]
      rfl
    · rfl
  | some st => simp [PyDict.get?_set]

@[simp] theorem changeSession_desks : (s.changeSession x f).desks = s.desks := by
  unfold changeSession
  split <;> rfl

@[simp] theorem changeSession_tasks : (s.changeSession x f).tasks = s.tasks := by
  unfold changeSession
  split <;> rfl

@[simp] theorem changeDesk_sessions : (s.changeDesk x g).sessions = s.sessions := rfl

@[simp] theorem changeDesk_tasks : (s.changeDesk x g).tasks = s.tasks := rfl

@[simp] theorem changeDesk_desks : (s.changeDesk x g).desks = Function.update s.desks x (g (s.desks x)) := rfl

@[simp] theorem setTask_sessions : (s.setTask i k).sessions = s.sessions := rfl

@[simp] theorem setTask_desks : (s.setTask i k).desks = s.desks := rfl

@[simp] theorem setTask_tasks : (s.setTask i k).tasks = s.tasks.set i k := rfl

@[simp] theorem finish_sessions : (s.finish i).sessions = s.sessions := rfl

@[simp] theorem finish_desks : (s.finish i).desks = s.desks := rfl

@[simp] theorem finish_tasks : (s.finish i).tasks = s.tasks.pop i := rfl

end Updates

theorem isActive_changeSession (f : SessionState → SessionState) (hf : ∀ st, (f st).toolActive = st.toolActive) :
    (s.changeSession x f).isActive y = s.isActive y := by
  unfold isActive
  rw [get?_changeSession]
  split_ifs with hy
  · subst hy
    cases s.sessions.get? y <;> simp [hf]
  · rfl

theorem isActive_setToolActive (now : ℤ) (hx : (s.sessions.get? x).isSome) (b : Bool) :
    (s.setToolActive x now b).isActive x = b := by
  obtain ⟨st, hst⟩ := Option.isSome_iff_exists.1 hx
  unfold isActive setToolActive
  rw [get?_changeSession, if_pos rfl, hst]
  rfl

theorem evicting_setToolActive (now : ℤ) (b : Bool) : (s.setToolActive x now b).evicting y = s.evicting y := by
  unfold evicting setToolActive
  rw [get?_changeSession]
  split_ifs with hy
  · subst hy
    cases s.sessions.get? y <;> rfl
  · rfl

theorem registered_changeSession (f : SessionState → SessionState) :
    ((s.changeSession x f).sessions.get? y).isSome = (s.sessions.get? y).isSome := by
  rw [get?_changeSession]
  split_ifs with hy
  · subst hy
    cases s.sessions.get? y <;> rfl
  · rfl

theorem selectVictim_idle {conf : Conf} {resident : List Session} {exclude : Option Session}
    (h : selectVictim conf { sessions := s.sessions } resident exclude = some x) :
    ∃ st, s.sessions.get? x = some st ∧ st.toolActive = false ∧ st.evictionInProgress = false := by
  unfold selectVictim at h
  by_cases hr : conf.residentReclamation = true
  · rw [if_pos hr] at h
    cases h
  rw [if_neg hr] at h
  obtain ⟨⟨v, st⟩, hmin, rfl⟩ := Option.map_eq_some_iff.1 h
  have hmem := List.minOn?_mem hmin
  have hidle : (v, st) ∈ s.sessions.entries ∧ st.evictionInProgress = false ∧ st.toolActive = false := by
    split_ifs at hmem with hw
    · simp only [List.mem_filter] at hmem
      have := hmem.1.2
      simp only [decide_eq_true_eq, Bool.not_eq_true] at this
      exact ⟨hmem.1.1, this.2.2.1, this.2.2.2.1⟩
    · simp only [List.mem_filter] at hmem
      have := hmem.2
      simp only [decide_eq_true_eq, Bool.not_eq_true] at this
      exact ⟨hmem.1, this.2.2.1, this.2.2.2.1⟩
  exact ⟨st, PyDict.get?_eq_some.2 hidle.1, hidle.2.2, hidle.2.1⟩

structure Apart (s : State) : Prop where
  flags : ∀ x, s.isActive x = true → s.evicting x = false
  claimed : ∀ i k, s.tasks.get? i = some k → k.claims = true → s.evicting k.session = true
  single : ∀ i j k l, s.tasks.get? i = some k → s.tasks.get? j = some l → k.claims = true → l.claims = true →
    k.session = l.session → i = j

structure Quiet (s t : State) : Prop where
  evicting : ∀ x, t.evicting x = s.evicting x
  marks : ∀ x, t.isActive x = true → s.isActive x = true ∨ s.evicting x = false
  tasks : ∀ j k, t.tasks.get? j = some k → k.claims = true → s.tasks.get? j = some k

theorem Quiet.apart (q : Quiet s t) (h : s.Apart) : t.Apart where
  flags x hx := by
    rw [q.evicting]
    rcases q.marks x hx with hx | hx
    · exact h.flags x hx
    · exact hx
  claimed j k hj hk := by
    rw [q.evicting]
    exact h.claimed j k (q.tasks j k hj hk) hk
  single i j k l hi hj hk hl := h.single i j k l (q.tasks i k hi hk) (q.tasks j l hj hl) hk hl

namespace Quiet

theorem refl (s : State) : Quiet s s := ⟨fun _ => rfl, fun _ => .inl, fun _ _ h _ => h⟩

theorem changeDesk (q : Quiet s t) (x : Session) (g : Desk → Desk) : Quiet s (t.changeDesk x g) :=
  ⟨q.evicting, q.marks, q.tasks⟩

theorem resident (q : Quiet s t) (r : Session → Bool) : Quiet s { t with resident := r } :=
  ⟨q.evicting, q.marks, q.tasks⟩

theorem setTask (q : Quiet s t) (i : Thread) (hk : k.claims = false) : Quiet s (t.setTask i k) where
  evicting := q.evicting
  marks := q.marks
  tasks j l hj hl := by
    simp only [setTask_tasks, PyDict.get?_set] at hj
    split_ifs at hj with hji
    · obtain rfl := Option.some.inj hj
      rw [hk] at hl
      cases hl
    · exact q.tasks j l hj hl

theorem finish (q : Quiet s t) (i : Thread) : Quiet s (t.finish i) where
  evicting := q.evicting
  marks := q.marks
  tasks j l hj hl := by
    simp only [finish_tasks, PyDict.get?_pop] at hj
    split_ifs at hj with hji
    exact q.tasks j l hj hl

theorem setToolActive (now : ℤ) {b : Bool} (hb : b = true → s.evicting x = false) :
    Quiet s (s.setToolActive x now b) where
  evicting y := evicting_setToolActive now b
  marks y hy := by
    by_cases hxy : y = x
    · subst hxy
      cases b with
      | true => exact .inr (hb rfl)
      | false =>
        unfold isActive State.setToolActive at hy
        rw [get?_changeSession, if_pos rfl] at hy
        cases hs : s.sessions.get? y <;> simp [hs, active] at hy
    · left
      unfold isActive State.setToolActive at hy
      rwa [get?_changeSession, if_neg hxy] at hy
  tasks j k hj _ := by simpa [State.setToolActive] using hj

theorem changeSession (f : SessionState → SessionState) (ha : ∀ st, (f st).toolActive = st.toolActive)
    (he : ∀ st, (f st).evictionInProgress = st.evictionInProgress) : Quiet s (s.changeSession x f) where
  evicting y := by
    unfold State.evicting
    rw [get?_changeSession]
    split_ifs with hy
    · subst hy
      cases s.sessions.get? y <;> simp [he]
    · rfl
  marks y hy := by
    rw [isActive_changeSession f ha] at hy
    exact .inl hy
  tasks j k hj _ := by simpa using hj

end Quiet

def clearsMark : Task → Action → Bool
  | .admission _ _ (.acquire p), .acquired _ ok => !ok && !p.earlyActive
  | .admission _ _ .clear, .clear _ => true
  | _, _ => false

structure Kept (d d' : Desk) : Prop where
  pending : d'.pendingAdmissions = d.pendingAdmissions
  active : d'.activeReservations = d.activeReservations
  lock : d'.reservationLock = d.reservationLock

theorem Kept.refl (d : Desk) : Kept d d := ⟨rfl, rfl, rfl⟩

theorem kept_waitLock (w : Option Thread) (y : Session) :
    Kept (s.desks y) ((s.changeDesk x fun d => { d with waitLock := w }).desks y) := by
  simp only [changeDesk_desks, Function.update_apply]
  split_ifs with hy
  · subst hy
    exact ⟨rfl, rfl, rfl⟩
  · exact .refl _

inductive Admits (s : State) (i : Thread) (x : Session) (e : ExecutionId) : Stage → Action → State → Prop
  | moves {stage stage' : Stage} {a : Action} {t : State} (hs : t.sessions = s.sessions)
      (hd : ∀ y, Kept (s.desks y) (t.desks y)) (ht : t.tasks = s.tasks.set i (.admission x e stage'))
      (hm : stage'.marked = true → stage.marked = true) (hf : stage ≠ .failed) : Admits s i x e stage a t
  | marks {stage stage' : Stage} {a : Action} (now : ℤ) (hx : s.evicting x = false) (hf : stage ≠ .failed) :
      Admits s i x e stage a ((s.setToolActive x now true).setTask i (.admission x e stage'))
  | clears {stage stage' : Stage} {a : Action} (now : ℤ) (hc : clearsMark (.admission x e stage) a = true)
      (hm : stage'.marked = false) (hf : stage ≠ .failed) :
      Admits s i x e stage a ((s.setToolActive x now false).setTask i (.admission x e stage'))
  | refused {a : Action} (hl : (s.desks x).reservationLock = none) :
      Admits s i x e .queued a
        ((s.changeDesk x fun d => { d with pendingAdmissions := d.pendingAdmissions.discard e }).finish i)
  | published {a : Action} {t : State} (hl : (s.desks x).reservationLock = none) (hs : t.sessions = s.sessions)
      (hd : ∀ y, Kept ((s.changeDesk x fun d =>
        { d with
          pendingAdmissions := d.pendingAdmissions.discard e
          activeReservations := d.activeReservations.add e }).desks y) (t.desks y))
      (ht : t.tasks = s.tasks.pop i ∨ t.tasks = s.tasks.set i (.admission x e .failed)) :
      Admits s i x e .admitted a t
  | discards {a : Action} (hl : (s.desks x).reservationLock = none) :
      Admits s i x e .failed a
        ((s.changeDesk x fun d => { d with pendingAdmissions := d.pendingAdmissions.discard e }).setTask i
          (.rollback x))

theorem admits_of_admission {stage : Stage} {a : Action} (h : s.admission i x e stage a = some t) :
    Admits s i x e stage a t := by
  have hmove : ∀ stage', (stage'.marked = true → stage.marked = true) → stage ≠ .failed →
      Admits s i x e stage a (s.setTask i (.admission x e stage')) :=
    fun stage' hm hf => .moves rfl (fun _ => .refl _) rfl hm hf
  have hwait : ∀ w stage', (stage'.marked = true → stage.marked = true) → stage ≠ .failed →
      Admits s i x e stage a
        ((s.changeDesk x fun d => { d with waitLock := w }).setTask i (.admission x e stage')) :=
    fun w stage' hm hf => .moves rfl (kept_waitLock w) rfl hm hf
  unfold admission at h
  split at h
  · split_ifs at h with hl
    obtain rfl := Option.some.inj h
    exact .refused (by simpa [free] using hl)
  · split_ifs at h with hl
    obtain rfl := Option.some.inj h
    exact hwait _ _ (by simp [Stage.marked]) (by simp)
  · obtain rfl := Option.some.inj h
    refine hmove _ ?_ (by simp)
    split_ifs with hp
    · simp [Stage.marked]
    · simp [Stage.marked, hp]
  · split at h
    · cases h
    · obtain rfl := Option.some.inj h
      exact .marks _ (by simpa using ‹¬s.evicting x = true›) (by simp)
  · obtain rfl := Option.some.inj h
    exact .moves rfl (fun _ => .refl _) rfl (fun hm => hm) (by simp)
  · obtain rfl := Option.some.inj h
    exact hmove _ (by simp [Stage.marked]) (by simp)
  · obtain rfl := Option.some.inj h
    exact hmove _ (by simp [Stage.marked]) (by simp)
  · obtain rfl := Option.some.inj h
    exact hmove _ (by simp [Stage.marked]) (by simp)
  · obtain rfl := Option.some.inj h
    exact hmove _ (by simp [Stage.marked]) (by simp)
  · obtain rfl := Option.some.inj h
    refine hwait _ _ ?_ (by simp)
    split_ifs with hp hb
    · simp [Stage.marked, hp]
    · simp [Stage.marked, hp]
    · simp [Stage.marked]
  · split at h
    · cases h
    · obtain rfl := Option.some.inj h
      exact hmove _ (by simp [Stage.marked]) (by simp)
  · split at h
    · cases h
    · obtain rfl := Option.some.inj h
      exact .marks _ (by simpa using ‹¬s.evicting x = true›) (by simp)
  · split_ifs at h with hok hp
    · obtain rfl := Option.some.inj h
      exact hmove _ (by simp [Stage.marked]) (by simp)
    · obtain rfl := Option.some.inj h
      exact hmove _ (by simp [Stage.marked]) (by simp)
    · obtain rfl := Option.some.inj h
      exact .clears _ (by simp [clearsMark, hok, hp]) (by simp [Stage.marked]) (by simp)
  · split_ifs at h with hp
    obtain rfl := Option.some.inj h
    exact hmove _ (by simp [Stage.marked]) (by simp)
  · obtain rfl := Option.some.inj h
    exact .clears _ rfl (by simp [Stage.marked]) (by simp)
  · split at h
    · obtain rfl := Option.some.inj h
      refine hwait _ _ ?_ (by simp)
      split_ifs with hp
      · intro _
        simpa [Stage.marked] using (Bool.and_eq_true_iff.1 hp).1
      · simp [Stage.marked]
    · cases h
  · split_ifs at h with hl hr
    · obtain rfl := Option.some.inj h
      exact .published (by simpa [free] using hl) rfl (fun _ => .refl _) (.inr rfl)
    · obtain rfl := Option.some.inj h
      exact .published (by simpa [free] using hl) rfl (kept_waitLock none) (.inl rfl)
  · split_ifs at h with hl
    obtain rfl := Option.some.inj h
    exact .discards (by simpa [free] using hl)
  · cases h

theorem Quiet.of_sessions (hs : t.sessions = s.sessions)
    (ht : ∀ j k, t.tasks.get? j = some k → k.claims = true → s.tasks.get? j = some k) : Quiet s t where
  evicting x := by
    unfold State.evicting
    rw [hs]
  marks x hx := by
    left
    simpa only [isActive, hs] using hx
  tasks := ht

theorem Admits.quiet {stage : Stage} {a : Action} (h : Admits s i x e stage a t) : Quiet s t := by
  cases h with
  | moves hs hd ht hm hf => exact .of_sessions hs (ht ▸ ((Quiet.refl s).setTask i rfl).tasks)
  | marks now hx hf => exact (Quiet.setToolActive now fun _ => hx).setTask i rfl
  | clears now hc hm hf => exact (Quiet.setToolActive now (by simp)).setTask i rfl
  | refused hl => exact ((Quiet.refl s).changeDesk x _).finish i
  | published hl hs hd ht =>
    refine .of_sessions hs ?_
    rcases ht with ht | ht
    · exact ht ▸ ((Quiet.refl s).finish i).tasks
    · exact ht ▸ ((Quiet.refl s).setTask i rfl).tasks
  | discards hl => exact ((Quiet.refl s).changeDesk x _).setTask i rfl

theorem evicting_changeSession (f : SessionState → SessionState) :
    (s.changeSession x f).evicting y =
      if y = x then ((s.sessions.get? x).map fun st => (f st).evictionInProgress).getD false else s.evicting y := by
  unfold evicting
  rw [get?_changeSession]
  split_ifs with hy
  · cases s.sessions.get? x <;> rfl
  · rfl

theorem Apart.claim (h : s.Apart) {st : SessionState} (hst : s.sessions.get? x = some st)
    (ha : st.toolActive = false) (he : st.evictionInProgress = false) (hk : k.session = x) :
    ((s.changeSession x claim).setTask i k).Apart := by
  have hevicting : s.evicting x = false := by simp [evicting, hst, he]
  have hflag : ∀ y, ((s.changeSession x State.claim).setTask i k).evicting y = (decide (y = x) || s.evicting y) := by
    intro y
    have := evicting_changeSession (s := s) (x := x) (y := y) State.claim
    simp only [State.evicting, setTask_sessions] at this ⊢
    rw [this, hst]
    by_cases hy : y = x <;> simp [hy, State.claim]
  have hactive : ∀ y, ((s.changeSession x State.claim).setTask i k).isActive y = s.isActive y :=
    fun y => isActive_changeSession State.claim fun _ => rfl
  have hother : ∀ j l, s.tasks.get? j = some l → l.claims = true → l.session ≠ x := by
    intro j l hj hl heq
    have := h.claimed j l hj hl
    rw [heq, hevicting] at this
    cases this
  have htasks : ∀ j l, ((s.changeSession x State.claim).setTask i k).tasks.get? j = some l → l.claims = true →
      (j = i ∧ l = k) ∨ (j ≠ i ∧ s.tasks.get? j = some l) := by
    intro j l hj _
    simp only [setTask_tasks, changeSession_tasks, PyDict.get?_set] at hj
    split_ifs at hj with hji
    · exact .inl ⟨hji, (Option.some.inj hj).symm⟩
    · exact .inr ⟨hji, hj⟩
  constructor
  · intro y hy
    rw [hactive] at hy
    have hyx : y ≠ x := by
      rintro rfl
      simp [isActive, hst, ha] at hy
    simp [hflag, hyx, h.flags y hy]
  · intro j l hj hl
    rw [hflag]
    rcases htasks j l hj hl with ⟨-, rfl⟩ | ⟨-, hj'⟩
    · simp [hk]
    · simp [h.claimed j l hj' hl]
  · intro j j' l l' hj hj' hl hl' heq
    rcases htasks j l hj hl with ⟨rfl, rfl⟩ | ⟨-, h1⟩ <;> rcases htasks j' l' hj' hl' with ⟨rfl, rfl⟩ | ⟨-, h2⟩
    · rfl
    · exact absurd (heq.symm.trans hk) (hother j' l' h2 hl')
    · exact absurd (heq.trans hk) (hother j l h1 hl)
    · exact h.single j j' l l' h1 h2 hl hl' heq

theorem Apart.release (h : s.Apart) (hi : s.tasks.get? i = some k) (hk : k.claims = true) (hx : k.session = x)
    {f : SessionState → SessionState} (ha : ∀ st, (f st).toolActive = st.toolActive)
    (he : ∀ st, (f st).evictionInProgress = false) : ((s.changeSession x f).finish i).Apart := by
  have hflag : ∀ y, ((s.changeSession x f).finish i).evicting y = if y = x then false else s.evicting y := by
    intro y
    have := evicting_changeSession (s := s) (x := x) (y := y) f
    simp only [State.evicting, finish_sessions] at this ⊢
    rw [this]
    split_ifs
    · cases s.sessions.get? x <;> simp [he]
    · rfl
  have htasks : ∀ j l, ((s.changeSession x f).finish i).tasks.get? j = some l → j ≠ i ∧ s.tasks.get? j = some l := by
    intro j l hj
    simp only [finish_tasks, changeSession_tasks, PyDict.get?_pop] at hj
    split_ifs at hj with hji
    exact ⟨hji, hj⟩
  constructor
  · intro y hy
    have hy' : s.isActive y = true := (isActive_changeSession f ha).symm.trans hy
    rw [hflag]
    split_ifs
    · rfl
    · exact h.flags y hy'
  · intro j l hj hl
    obtain ⟨hji, hj'⟩ := htasks j l hj
    have hne : l.session ≠ x := fun heq => hji (h.single j i l k hj' hi hl hk (heq.trans hx.symm))
    rw [hflag, if_neg hne]
    exact h.claimed j l hj' hl
  · intro j j' l l' hj hj'
    exact h.single j j' l l' (htasks j l hj).2 (htasks j' l' hj').2

theorem Apart.start {conf : Conf} {a : Action} (h : s.Apart) (ha : start conf s i a = some t) : t.Apart := by
  unfold State.start at ha
  split at ha
  · split_ifs at ha
    obtain rfl := Option.some.inj ha
    exact (((Quiet.refl s).changeDesk _ _).setTask i rfl).apart h
  · obtain ⟨u, hu, rfl⟩ := Option.map_eq_some_iff.1 ha
    unfold pop at hu
    split_ifs at hu
    obtain rfl := Option.some.inj hu
    split_ifs
    · exact ((Quiet.refl s).changeDesk _ _).apart h
    · exact (((Quiet.refl s).changeDesk _ _).setTask i rfl).apart h
  · obtain ⟨u, hu, rfl⟩ := Option.map_eq_some_iff.1 ha
    unfold pop at hu
    split_ifs at hu
    obtain rfl := Option.some.inj hu
    split_ifs
    · exact ((Quiet.refl s).changeDesk _ _).apart h
    · exact (((Quiet.refl s).changeDesk _ _).setTask i rfl).apart h
  · obtain rfl := Option.some.inj ha
    refine (Quiet.changeSession _ (fun st => ?_) (fun st => ?_)).apart h
    · rfl
    · rfl
  · obtain rfl := Option.some.inj ha
    refine (Quiet.changeSession _ (fun st => ?_) (fun st => ?_)).apart h
    · split_ifs <;> rfl
    · split_ifs <;> rfl
  · split at ha
    · obtain rfl := Option.some.inj ha
      exact h
    · obtain rfl := Option.some.inj ha
      obtain ⟨st, hst, hactive, hevicting⟩ := selectVictim_idle ‹_›
      exact h.claim hst hactive hevicting rfl
  · split at ha
    · obtain rfl := Option.some.inj ha
      exact h
    · split_ifs at ha with hc
      · obtain rfl := Option.some.inj ha
        exact h
      · obtain rfl := Option.some.inj ha
        simp only [Bool.or_eq_true, not_or, Bool.not_eq_true] at hc
        exact h.claim ‹_› hc.1.1 hc.1.2 rfl
  · cases ha

theorem Apart.step {a : Action} (h : s.Apart) (hi : s.tasks.get? i = some k) (ha : s.step i k a = some t) :
    t.Apart := by
  unfold State.step at ha
  split at ha
  · exact (admits_of_admission ha).quiet.apart h
  · split_ifs at ha
    obtain rfl := Option.some.inj ha
    exact (((Quiet.refl s).changeDesk _ _).setTask i rfl).apart h
  · split at ha
    · obtain rfl := Option.some.inj ha
      split_ifs
      · exact ((Quiet.refl s).finish i).apart h
      · exact ((Quiet.refl s).setTask i rfl).apart h
    · cases ha
  · split_ifs at ha
    obtain rfl := Option.some.inj ha
    exact (((Quiet.refl s).changeDesk _ _).setTask i rfl).apart h
  · split at ha
    · cases ha
    · rename_i hb
      obtain rfl := Option.some.inj ha
      refine (((Quiet.setToolActive _ fun hb' => ?_).changeDesk _ _).finish i).apart h
      simpa [hb'] using hb
  · obtain rfl := Option.some.inj ha
    exact ((Quiet.refl s).resident _).apart h
  · obtain rfl := Option.some.inj ha
    exact h.release hi rfl rfl (fun _ => rfl) (fun _ => rfl)
  · obtain rfl := Option.some.inj ha
    exact h.release hi rfl rfl (fun _ => rfl) (fun _ => rfl)
  · cases ha

theorem Apart.next {conf : Conf} {a : Thread × Action} (h : s.Apart) (ha : State.next conf s a = some (t, ())) :
    t.Apart := by
  obtain ⟨i, a⟩ := a
  unfold State.next at ha
  obtain ⟨u, hu, heq⟩ := Option.map_eq_some_iff.1 ha
  obtain ⟨rfl, -⟩ := Prod.mk.inj heq
  split at hu
  · exact h.start hu
  · exact h.step ‹_› hu

theorem apart_of_start (h : Start s) : s.Apart := by
  obtain ⟨sessions, resident, rfl, hidle⟩ := h
  refine ⟨fun x hx => ?_, fun i k hi => ?_, fun i j k l hi => ?_⟩
  · obtain ⟨st, hst, hactive⟩ : ∃ st, sessions.get? x = some st ∧ st.toolActive = true := by
      simpa [isActive, Option.getD_eq_iff] using hx
    rw [(hidle x st hst).1] at hactive
    cases hactive
  · cases hi
  · cases hi

theorem Reachable.apart {conf : Conf} (h : Reachable (system conf) s) : s.Apart :=
  h.invariant (fun _ => apart_of_start) fun _ _ _ hs ha => hs.next ha

end State

end ClawBox.Activity
