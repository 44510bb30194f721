import ClawBox.Control.Session
import Mathlib.Tactic.Tauto

namespace ClawBox.Control

open Transition

inductive Stage
  | fresh
  | admitting
  | failed
  | open
  | completing
  | done
  | rolling
  | gone
  deriving DecidableEq

/-- The turns of an execution, with the callbacks that returned in them. -/
inductive Turn (r : ℕ) : Stage → List Deed → Stage → Prop
  | created : Turn r .fresh [] .admitting
  | admitted : Turn r .admitting [.admitted r] .open
  | refused : Turn r .admitting [] .failed
  | begun : Turn r .open [] .completing
  | completed : Turn r .completing [.completed r] .done
  | retry : Turn r .completing [] .open
  | rollBack : Turn r .open [] .rolling
  | abandoned : Turn r .rolling [.abandoned r] .gone
  | kept : Turn r .rolling [] .open

def Stage.Tallies (r : ℕ) (log : List Deed) : Stage → Prop
  | .fresh | .admitting | .failed =>
    log.count (.admitted r) = 0 ∧ log.count (.completed r) = 0 ∧ log.count (.abandoned r) = 0
  | .open | .completing | .rolling =>
    log.count (.admitted r) = 1 ∧ log.count (.completed r) = 0 ∧ log.count (.abandoned r) = 0
  | .done => log.count (.admitted r) = 1 ∧ log.count (.completed r) = 1 ∧ log.count (.abandoned r) = 0
  | .gone => log.count (.admitted r) = 1 ∧ log.count (.completed r) = 0 ∧ log.count (.abandoned r) = 1

theorem Turn.tallies {r : ℕ} {a b : Stage} {deeds log : List Deed} (h : Turn r a deeds b)
    (ha : a.Tallies r log) : b.Tallies r (deeds ++ log) := by
  cases h <;> simpa [Stage.Tallies] using ha

theorem Turn.deeds_other {r r' : ℕ} {a b c : Stage} {deeds log : List Deed} (h : Turn r a deeds b) (hr : r' ≠ r)
    (hc : c.Tallies r' log) : c.Tallies r' (deeds ++ log) := by
  cases h <;> cases c <;> simpa [Stage.Tallies, List.count_cons, hr.symm] using hc

def Session.stage (s : Session) (r : ℕ) : Stage :=
  if s.created ≤ r then .fresh
  else if s.executions.get? (s.objects r).request.executionId ≠ some r then .gone
  else if (s.objects r).admission.isNone then if (s.objects r).admitting then .admitting else .failed
  else if (s.objects r).completion.isSome then .done
  else if (s.objects r).admitting then .rolling
  else if (s.objects r).completing then .completing else .open

namespace Phase

def ref : Phase → Option ℕ
  | .admitCall r _ | .awaitAdmission r _ | .answered r _ _ _ | .delivered r _ _ _ | .abandon r | .awaitCompletion r _
  | .complete r _ => some r
  | _ => none

def Fits : Phase → Stage → Prop
  | .admitCall .., a => a = .admitting
  | .awaitAdmission .., a => a = .admitting ∨ a = .failed ∨ a = .open ∨ a = .completing ∨ a = .done
  | .answered .., a | .delivered .., a | .awaitCompletion .., a => a = .open ∨ a = .completing ∨ a = .done
  | .abandon _, a => a = .rolling
  | .complete .., a => a = .completing
  | _, _ => True

def Matches : Phase → Execution → Prop
  | .admitCall _ q, x | .awaitAdmission _ q, x =>
    x.request.executionId = q.executionId ∧ x.commandSha256 = q.commandSha256
  | .answered _ q response _, x | .delivered _ q response _, x =>
    x.request.executionId = q.executionId ∧ x.commandSha256 = q.commandSha256 ∧ x.admission = some response
  | _, _ => True

def token : Phase → Option (ℕ × Bool)
  | .admitCall r _ | .answered r _ _ false | .delivered r _ _ false | .abandon r => some (r, false)
  | .complete r _ => some (r, true)
  | _ => none

theorem ref_of_token {p : Phase} {r : ℕ} {b : Bool} (h : p.token = some (r, b)) : p.ref = some r := by
  unfold token at h
  split at h <;> simp_all [ref]

theorem complete_of_token {p : Phase} {r : ℕ} (h : p.token = some (r, true)) : ∃ request, p = .complete r request := by
  unfold token at h
  split at h <;> simp_all

end Phase

theorem Phase.Fits.turn {q : Phase} {r : ℕ} {a b : Stage} {deeds : List Deed} (h : Turn r a deeds b)
    (hq : q.Fits a) (hr : q.ref = some r) (hb : b ≠ .rolling)
    (hadmission : a = .admitting ∨ a = .rolling → q.token ≠ some (r, false))
    (hcompletion : a = .completing → q.token ≠ some (r, true)) : q.Fits b := by
  cases h <;> cases q <;> simp_all [Phase.Fits, Phase.ref, Phase.token]

theorem Phase.Matches.change {q : Phase} {x y : Execution} {a : Stage} (hm : q.Matches x) (hq : q.Fits a)
    (hid : y.request = x.request) (hsha : y.commandSha256 = x.commandSha256)
    (hadmission : a = .admitting ∨ y.admission = x.admission) : q.Matches y := by
  have hsame : q.Fits .admitting ∨ y.admission = x.admission := by
    rcases hadmission with rfl | h
    · exact .inl hq
    · exact .inr h
  cases q <;> simp_all [Phase.Matches, Phase.Fits]

structure State.Ordered (s : State) : Prop where
  table : ∀ k r, s.session.executions.get? k = some r →
    r < s.session.created ∧ (s.session.objects r).request.executionId = k
  flags : ∀ r, s.session.stage r = .admitting ∨ s.session.stage r = .failed ∨ s.session.stage r = .rolling →
    (s.session.objects r).completing = false
  order : ∀ r, r < s.session.created → (s.session.objects r).admission = none →
    (s.session.objects r).completion = none
  tallies : ∀ r, (s.session.stage r).Tallies r s.log
  fits : ∀ i p r, s.requests.get? i = some p → p.ref = some r →
    p.Fits (s.session.stage r) ∧ p.Matches (s.session.objects r)
  unique : ∀ i j p q x, s.requests.get? i = some p → s.requests.get? j = some q → p.token = some x →
    q.token = some x → i = j

namespace Session

variable {s : Session} {r : ℕ}

def Holds (s : Session) (r : ℕ) : Prop :=
  r < s.created ∧ s.executions.get? (s.objects r).request.executionId = some r

instance : Decidable (s.Holds r) :=
  inferInstanceAs (Decidable (r < s.created ∧ s.executions.get? (s.objects r).request.executionId = some r))

theorem stage_admitting :
    s.stage r = .admitting ↔ s.Holds r ∧ (s.objects r).admission = none ∧ (s.objects r).admitting = true := by
  unfold stage Holds
  split_ifs <;> simp_all

theorem stage_open :
    s.stage r = .open ↔ s.Holds r ∧ (s.objects r).admission.isSome ∧ (s.objects r).completion = none ∧
      (s.objects r).admitting = false ∧ (s.objects r).completing = false := by
  unfold stage Holds
  split_ifs <;> simp_all [Option.isSome_iff_ne_none]

theorem stage_completing :
    s.stage r = .completing ↔ s.Holds r ∧ (s.objects r).admission.isSome ∧ (s.objects r).completion = none ∧
      (s.objects r).admitting = false ∧ (s.objects r).completing = true := by
  unfold stage Holds
  split_ifs <;> simp_all [Option.isSome_iff_ne_none]

theorem stage_rolling :
    s.stage r = .rolling ↔ s.Holds r ∧ (s.objects r).admission.isSome ∧ (s.objects r).completion = none ∧
      (s.objects r).admitting = true := by
  unfold stage Holds
  split_ifs <;> simp_all [Option.isSome_iff_ne_none]

theorem stage_done :
    s.stage r = .done ↔ s.Holds r ∧ (s.objects r).admission.isSome ∧ (s.objects r).completion.isSome := by
  unfold stage Holds
  split_ifs <;> simp_all [Option.isSome_iff_ne_none]

theorem stage_failed :
    s.stage r = .failed ↔ s.Holds r ∧ (s.objects r).admission = none ∧ (s.objects r).admitting = false := by
  unfold stage Holds
  split_ifs <;> simp_all

theorem stage_change_ne {r' : ℕ} (f : Execution → Execution) (h : r' ≠ r) : (s.change r f).stage r' = s.stage r' := by
  simp only [stage, change, Function.update_of_ne h]

theorem holds_change {f : Execution → Execution} (hf : (f (s.objects r)).request = (s.objects r).request) :
    (s.change r f).Holds r ↔ s.Holds r := by
  simp [Holds, change, hf]

theorem holds_of_stage (h : s.stage r = .open ∨ s.stage r = .completing ∨ s.stage r = .done) :
    s.Holds r ∧ (s.objects r).admission.isSome := by
  rcases h with h | h | h
  · exact ⟨(stage_open.mp h).1, (stage_open.mp h).2.1⟩
  · exact ⟨(stage_completing.mp h).1, (stage_completing.mp h).2.1⟩
  · exact ⟨(stage_done.mp h).1, (stage_done.mp h).2.1⟩

end Session

namespace State

variable {s t : State} {i : ℕ} {p : Phase} {r : ℕ} {deeds : List Deed}

theorem Ordered.step (h : s.Ordered) (hreq : t.requests = s.requests.set i p) (hlog : t.log = deeds ++ s.log)
    (hturn : Turn r (s.session.stage r) deeds (t.session.stage r) ∨
      t.session.stage r = s.session.stage r ∧ deeds = [])
    (hstage : ∀ r', r' ≠ r → t.session.stage r' = s.session.stage r')
    (hobjects : ∀ r', r' ≠ r → t.session.objects r' = s.session.objects r')
    (htable : ∀ k r, t.session.executions.get? k = some r →
      r < t.session.created ∧ (t.session.objects r).request.executionId = k)
    (hflags : t.session.stage r = .admitting ∨ t.session.stage r = .failed ∨ t.session.stage r = .rolling →
      (t.session.objects r).completing = false)
    (horder : ∀ r, r < t.session.created → (t.session.objects r).admission = none →
      (t.session.objects r).completion = none)
    (href : ∀ r', p.ref = some r' → r' = r)
    (hnew : p.ref = some r → p.Fits (t.session.stage r) ∧ p.Matches (t.session.objects r))
    (hothers : ∀ j q, j ≠ i → s.requests.get? j = some q → q.ref = some r →
      q.Fits (t.session.stage r) ∧ q.Matches (t.session.objects r))
    (htoken : ∀ x j q, p.token = some x → j ≠ i → s.requests.get? j = some q → q.token ≠ some x) : t.Ordered where
  table := htable
  flags r' hr' := by
    by_cases he : r' = r
    · subst r'
      exact hflags hr'
    · rw [hobjects r' he]
      rw [hstage r' he] at hr'
      exact h.flags r' hr'
  order := horder
  tallies r' := by
    rw [hlog]
    by_cases he : r' = r
    · subst r'
      rcases hturn with hturn | ⟨hsame, rfl⟩
      · exact hturn.tallies (h.tallies r)
      · rw [hsame]
        exact h.tallies r
    · rw [hstage r' he]
      rcases hturn with hturn | ⟨-, rfl⟩
      · exact hturn.deeds_other he (h.tallies r')
      · exact h.tallies r'
  fits j q r' hj hq := by
    rw [hreq, PyDict.get?_set] at hj
    split_ifs at hj with hji
    · obtain rfl := Option.some.inj hj
      obtain rfl := href r' hq
      exact hnew hq
    · by_cases he : r' = r
      · subst r'
        exact hothers j q hji hj hq
      · rw [hstage r' he, hobjects r' he]
        exact h.fits j q r' hj hq
  unique j k q q' x hj hk hq hq' := by
    rw [hreq, PyDict.get?_set] at hj hk
    split_ifs at hj hk with hji hki hki
    · rw [hji, hki]
    · obtain rfl := Option.some.inj hj
      exact absurd hq' (htoken x k q' hq hki hk)
    · obtain rfl := Option.some.inj hk
      exact absurd hq (htoken x j q hq' hji hj)
    · exact h.unique j k q q' x hj hk hq hq'

theorem Ordered.stay (h : s.Ordered) (l : Lifecycle)
    (hnew : ∀ r, p.ref = some r → p.Fits (s.session.stage r) ∧ p.Matches (s.session.objects r))
    (htoken : ∀ x j q, p.token = some x → j ≠ i → s.requests.get? j = some q → q.token ≠ some x) :
    (⟨{ s.session with lifecycle := l }, s.requests.set i p, s.log⟩ : State).Ordered := by
  cases hp : p.ref with
  | none =>
    refine h.step (r := s.session.created) (p := p) rfl (List.nil_append s.log).symm (.inr ⟨rfl, rfl⟩) (fun _ _ => rfl)
      (fun _ _ => rfl) h.table ?_ h.order ?_ ?_ ?_ htoken
    · exact h.flags _
    · simp [hp]
    · simp [hp]
    · intro j q _ hj hq
      exact h.fits j q _ hj hq
  | some r =>
    refine h.step (r := r) (p := p) rfl (List.nil_append s.log).symm (.inr ⟨rfl, rfl⟩) (fun _ _ => rfl)
      (fun _ _ => rfl) h.table ?_ h.order ?_ (hnew r) ?_ htoken
    · exact h.flags _
    · intro r' hr'
      rw [hp] at hr'
      exact (Option.some.inj hr').symm
    · intro j q _ hj hq
      exact h.fits j q _ hj hq

theorem Ordered.change (h : s.Ordered) {f : Execution → Execution}
    (hid : (f (s.session.objects r)).request = (s.session.objects r).request)
    (hsha : (f (s.session.objects r)).commandSha256 = (s.session.objects r).commandSha256)
    (hturn : Turn r (s.session.stage r) deeds ((s.session.change r f).stage r) ∨
      (s.session.change r f).stage r = s.session.stage r ∧ deeds = [])
    (hflags : (s.session.change r f).stage r = .admitting ∨ (s.session.change r f).stage r = .failed ∨
      (s.session.change r f).stage r = .rolling → (f (s.session.objects r)).completing = false)
    (horder : (f (s.session.objects r)).admission = none → (f (s.session.objects r)).completion = none)
    (hadmission : s.session.stage r = .admitting ∨
      (f (s.session.objects r)).admission = (s.session.objects r).admission)
    (href : ∀ r', p.ref = some r' → r' = r)
    (hnew : p.ref = some r → p.Fits ((s.session.change r f).stage r) ∧ p.Matches (f (s.session.objects r)))
    (hothers : ∀ j q, j ≠ i → s.requests.get? j = some q → q.ref = some r → q.Fits (s.session.stage r) →
      q.Fits ((s.session.change r f).stage r))
    (htoken : ∀ x j q, p.token = some x → j ≠ i → s.requests.get? j = some q → q.token ≠ some x) :
    (⟨s.session.change r f, s.requests.set i p, deeds ++ s.log⟩ : State).Ordered := by
  have hself : (s.session.change r f).objects r = f (s.session.objects r) := by simp [Session.change]
  have hne : ∀ r', r' ≠ r → (s.session.change r f).objects r' = s.session.objects r' := by
    intro r' hr'
    simp [Session.change, hr']
  refine h.step (r := r) (p := p) rfl (rfl : deeds ++ s.log = deeds ++ s.log) hturn
    (fun r' hr' => Session.stage_change_ne f hr') hne ?_ ?_ ?_ href ?_ ?_ htoken
  · intro k r' hk
    obtain ⟨hlt, hid'⟩ := h.table k r' hk
    refine ⟨hlt, ?_⟩
    by_cases he : r' = r
    · subst r'
      rw [hself, hid, hid']
    · rw [hne r' he, hid']
  · intro hstage
    rw [hself]
    exact hflags hstage
  · intro r' hlt
    by_cases he : r' = r
    · subst r'
      rw [hself]
      exact horder
    · rw [hne r' he]
      exact h.order r' hlt
  · intro hp
    rw [hself]
    exact hnew hp
  · intro j q hji hj hq
    obtain ⟨hfit, hmatch⟩ := h.fits j q r hj hq
    refine ⟨hothers j q hji hj hq hfit, ?_⟩
    rw [hself]
    exact hmatch.change hfit hid hsha hadmission

def after (s : State) (i : ℕ) (r : Session × Phase) (deeds : List Deed) : State :=
  ⟨r.1, s.requests.set i r.2, deeds ++ s.log⟩

theorem Ordered.rest (h : s.Ordered) (l : Lifecycle) (hp : p.ref = none) :
    (s.after i ({ s.session with lifecycle := l }, p) []).Ordered := by
  apply h.stay l
  · simp [hp]
  · intro x j q hx
    have hr := Phase.ref_of_token (r := x.1) (b := x.2) hx
    simp [hp] at hr

theorem Ordered.raised (h : s.Ordered) (e : Fault) : (s.after i (s.session, .raised e) []).Ordered :=
  h.rest s.session.lifecycle rfl

theorem Ordered.awaitAdmission (h : s.Ordered) {request : Request}
    (hfit : (Phase.awaitAdmission r request).Fits (s.session.stage r))
    (hmatch : (Phase.awaitAdmission r request).Matches (s.session.objects r)) :
    (s.after i (s.session.awaitAdmission r request) []).Ordered := by
  unfold Session.awaitAdmission
  split_ifs with hadmitting
  · refine h.stay s.session.lifecycle ?_ (by simp [Phase.token])
    intro r' hr'
    obtain rfl : r = r' := by simpa [Phase.ref] using hr'
    exact ⟨hfit, hmatch⟩
  · split
    · exact h.raised _
    · rename_i response hresponse
      refine h.stay s.session.lifecycle ?_ (by simp [Phase.token])
      intro r' hr'
      obtain rfl : r = r' := by simpa [Phase.ref] using hr'
      refine ⟨?_, hmatch.1, hmatch.2, hresponse⟩
      rcases hfit with hf | hf | hf
      · simp [(Session.stage_admitting.mp hf).2.1] at hresponse
      · simp [(Session.stage_failed.mp hf).2.1] at hresponse
      · exact hf

theorem Ordered.stage_of_table (h : s.Ordered) {k : Value} (hk : s.session.executions.get? k = some r) :
    s.session.Holds r := by
  obtain ⟨hlt, hid⟩ := h.table k r hk
  exact ⟨hlt, by rw [hid, hk]⟩

theorem Ordered.create (h : s.Ordered) {request : Request}
    (hfree : s.session.executions.get? request.executionId = none) :
    (s.after i (s.session.create request, .admitCall s.session.created request) []).Ordered := by
  have hfresh : s.session.stage s.session.created = .fresh := by simp [Session.stage]
  have hadmitting : (s.session.create request).stage s.session.created = .admitting := by
    simp [Session.stage, Session.create]
  have hnobody : ∀ j q, s.requests.get? j = some q → q.ref ≠ some s.session.created := by
    intro j q hj hq
    have hfit := (h.fits j q _ hj hq).1
    rw [hfresh] at hfit
    cases q <;> simp_all [Phase.Fits, Phase.ref]
  have hstage : ∀ r', r' ≠ s.session.created → (s.session.create request).stage r' = s.session.stage r' := by
    intro r' hr'
    have hle : s.session.created + 1 ≤ r' ↔ s.session.created ≤ r' := by omega
    simp only [Session.stage, Session.create, hle, Function.update_of_ne hr']
    by_cases hid : (s.session.objects r').request.executionId = request.executionId
    · simp [hid, hfree, hr'.symm]
    · rw [PyDict.get?_set_ne _ _ hid]
  have hobjects : ∀ r', r' ≠ s.session.created →
      (s.session.create request).objects r' = s.session.objects r' := by
    intro r' hr'
    simp [Session.create, hr']
  refine h.step (r := s.session.created) rfl (List.nil_append s.log).symm ?_ hstage hobjects ?_ ?_ ?_ ?_ ?_ ?_ ?_
  · left
    simp only [after, hadmitting, hfresh]
    exact .created
  · intro k r' hk
    simp only [after, Session.create, PyDict.get?_set] at hk
    split_ifs at hk with hid
    · obtain rfl := Option.some.inj hk
      simp [after, Session.create, hid]
    · obtain ⟨hlt, hid'⟩ := h.table k r' hk
      have hne : r' ≠ s.session.created := by omega
      simp only [after, hobjects r' hne]
      exact ⟨by simp only [Session.create]; omega, hid'⟩
  · simp [after, Session.create]
  · intro r' hlt
    by_cases he : r' = s.session.created
    · simp [after, Session.create, he]
    · have hlt' : r' < s.session.created + 1 := hlt
      simp only [after, hobjects r' he]
      exact h.order r' (by omega)
  · simp [Phase.ref]
  · intro _
    refine ⟨hadmitting, ?_⟩
    simp [after, Phase.Matches, Session.create]
  · intro j q _ hj hq
    exact absurd hq (hnobody j q hj)
  · intro x j q hx _ hj hq
    obtain rfl : (s.session.created, false) = x := by simpa [Phase.token] using hx
    exact hnobody j q hj (Phase.ref_of_token hq)

theorem Ordered.admission (h : s.Ordered) {request : Request}
    (hquiet : ∀ r, s.session.executions.get? request.executionId = some r →
      (s.session.objects r).commandSha256 = request.commandSha256 → s.session.stage r ≠ .rolling) :
    (s.after i (s.session.admission request) []).Ordered := by
  unfold Session.admission
  split_ifs with hactive
  · exact h.raised _
  · split
    · rename_i hfree
      exact h.create hfree
    · rename_i r hr
      split_ifs with hsha
      · exact h.raised _
      · have hsha' : (s.session.objects r).commandSha256 = request.commandSha256 := by simpa using hsha
        refine h.awaitAdmission ?_ ⟨(h.table _ r hr).2, hsha'⟩
        have hrolling := hquiet r hr hsha'
        have hheld := h.stage_of_table hr
        unfold Session.stage at hrolling ⊢
        simp only [Phase.Fits]
        split_ifs at hrolling ⊢ <;> simp_all [Session.Holds]
        omega

theorem Ordered.admitted (h : s.Ordered) {request : Request} (hi : s.requests.get? i = some (.admitCall r request))
    (outcome : Except Fault Fields) :
    (s.after i (s.session.admitted r request outcome)
      (if (Session.decision outcome).isOk then [.admitted r] else [])).Ordered := by
  obtain ⟨hfit, hmatch⟩ := h.fits i _ r hi rfl
  have hadmitting : s.session.stage r = .admitting := hfit
  obtain ⟨hheld, hnone, -⟩ := Session.stage_admitting.mp hadmitting
  have hcompleting := h.flags r (.inl hadmitting)
  have hcompletion := h.order r hheld.1 hnone
  have hothers : ∀ {b deeds j q}, Turn r .admitting deeds b → b ≠ .rolling → j ≠ i → s.requests.get? j = some q →
      q.ref = some r → q.Fits (s.session.stage r) → q.Fits b := by
    intro b deeds j q hturn hb hji hj hq hfit'
    rw [hadmitting] at hfit'
    refine hfit'.turn hturn hq hb (fun _ htoken => ?_) (by simp)
    exact hji (h.unique j i q _ _ hj hi htoken rfl)
  unfold Session.admitted
  split
  · rename_i e he
    have hstage : (s.session.change r fun x => { x with admissionError := some e, admitting := false }).stage r =
        .failed := by
      rw [Session.stage_failed, Session.holds_change rfl]
      simp [Session.change, hheld, hnone]
    simp only [he, Except.isOk, Except.toBool, Bool.false_eq_true, if_false]
    refine h.change (f := fun x => { x with admissionError := some e, admitting := false }) rfl rfl ?_
      (fun _ => hcompleting) (fun _ => hcompletion) (.inr rfl) ?_ ?_ ?_ ?_
    · rw [hadmitting, hstage]
      exact .inl .refused
    · simp [Phase.ref]
    · simp [Phase.ref]
    · intro j q hji hj hq hfit'
      rw [hstage]
      exact hothers .refused (by simp) hji hj hq hfit'
    · simp [Phase.token]
  · rename_i response hresponse
    have hstage : (s.session.change r fun x => { x with admission := some response, admitting := false }).stage r =
        .open := by
      rw [Session.stage_open, Session.holds_change rfl]
      simp [Session.change, hheld, hcompletion, hcompleting]
    simp only [hresponse, Except.isOk, Except.toBool, if_true]
    refine h.change (f := fun x => { x with admission := some response, admitting := false }) rfl rfl ?_
      (fun _ => hcompleting) (fun _ => hcompletion) (.inl hadmitting) ?_ ?_ ?_ ?_
    · rw [hadmitting, hstage]
      exact .inl .admitted
    · simp [Phase.ref]
    · intro _
      rw [hstage]
      exact ⟨.inl rfl, hmatch.1, hmatch.2, rfl⟩
    · intro j q hji hj hq hfit'
      rw [hstage]
      exact hothers .admitted (by simp) hji hj hq hfit'
    · intro x j q hx hji hj hq
      exact hji (h.unique j i q _ x hj hi hq hx)

theorem Ordered.changeAndRest (h : s.Ordered) {f : Execution → Execution}
    (hid : (f (s.session.objects r)).request = (s.session.objects r).request)
    (hsha : (f (s.session.objects r)).commandSha256 = (s.session.objects r).commandSha256)
    (hadmission : (f (s.session.objects r)).admission = (s.session.objects r).admission)
    (hturn : Turn r (s.session.stage r) deeds ((s.session.change r f).stage r) ∨
      (s.session.change r f).stage r = s.session.stage r ∧ deeds = [])
    (hflags : (s.session.change r f).stage r = .admitting ∨ (s.session.change r f).stage r = .failed ∨
      (s.session.change r f).stage r = .rolling → (f (s.session.objects r)).completing = false)
    (horder : (f (s.session.objects r)).admission = none → (f (s.session.objects r)).completion = none)
    (hp : p.ref = none)
    (hothers : ∀ j q, j ≠ i → s.requests.get? j = some q → q.ref = some r → q.Fits (s.session.stage r) →
      q.Fits ((s.session.change r f).stage r)) :
    (s.after i (s.session.change r f, p) deeds).Ordered := by
  refine h.change hid hsha hturn hflags horder (.inr hadmission) (by simp [hp]) (by simp [hp]) hothers ?_
  intro x j q hx
  have hr := Phase.ref_of_token (r := x.1) (b := x.2) hx
  simp [hp] at hr

theorem Ordered.executionStart (h : s.Ordered) (request : Request) (outcome : Except Fault Unit) :
    (s.after i (s.session.executionStart request outcome) []).Ordered := by
  unfold Session.executionStart
  split
  · exact h.raised _
  · rename_i r hr
    split
    · exact h.raised _
    · rename_i admission hadmission
      dsimp only
      split_ifs
      · exact h.raised _
      · exact h.raised _
      · exact h.raised _
      · exact h.rest s.session.lifecycle rfl
      · split
        · exact h.raised _
        · have hsame : ∀ b c, (s.session.change r fun x => { x with started := b, guestFinished := c }).stage r =
              s.session.stage r := by
            intro b c
            simp [Session.stage, Session.change]
          refine h.changeAndRest rfl rfl rfl (.inr ⟨hsame _ _, rfl⟩) ?_ ?_ rfl ?_
          · rw [hsame]
            exact h.flags r
          · exact h.order r (h.table _ r hr).1
          · intro j q _ _ _ hfit
            rw [hsame]
            exact hfit

theorem Ordered.awaitCompletion (h : s.Ordered) {request : Request}
    (hfit : (Phase.awaitCompletion r request).Fits (s.session.stage r)) :
    (s.after i (s.session.awaitCompletion r request) []).Ordered := by
  unfold Session.awaitCompletion
  split_ifs with hcompleting
  · refine h.stay s.session.lifecycle ?_ (by simp [Phase.token])
    intro r' hr'
    obtain rfl : r = r' := by simpa [Phase.ref] using hr'
    exact ⟨hfit, trivial⟩
  · split
    · exact h.rest s.session.lifecycle rfl
    · rename_i hnone
      have hopen : s.session.stage r = .open := by
        rcases hfit with hf | hf | hf
        · exact hf
        · simp [(Session.stage_completing.mp hf).2.2.2.2] at hcompleting
        · simp [Session.stage_done, hnone] at hf
      obtain ⟨hheld, hadmission, -, hadmitting, -⟩ := Session.stage_open.mp hopen
      have hstage : (s.session.change r fun x => { x with completing := true }).stage r = .completing := by
        rw [Session.stage_completing, Session.holds_change rfl]
        simp [Session.change, hheld, hadmission, hnone, hadmitting]
      refine h.change (f := fun x => { x with completing := true }) rfl rfl ?_ ?_ ?_ (.inr rfl) ?_ ?_ ?_ ?_
      · rw [hopen, hstage]
        exact .inl .begun
      · simp [hstage]
      · exact h.order r hheld.1
      · simp [Phase.ref]
      · intro _
        exact ⟨hstage, trivial⟩
      · intro j q _ hj hq hfit'
        rw [hopen] at hfit'
        rw [hstage]
        exact hfit'.turn .begun hq (by simp) (by simp) (by simp)
      · intro x j q hx _ hj hq
        obtain rfl : (r, true) = x := by simpa [Phase.token] using hx
        -- a completion in progress would show in the stage
        obtain ⟨request', rfl⟩ := Phase.complete_of_token hq
        have hfit' : s.session.stage r = .completing := (h.fits j _ r hj rfl).1
        simp [hopen] at hfit'

theorem Ordered.completion (h : s.Ordered) {request : Request}
    (hquiet : ∀ r, s.session.executions.get? request.executionId = some r →
      (s.session.objects r).commandSha256 = request.commandSha256 → s.session.stage r ≠ .rolling) :
    (s.after i (s.session.completion request) []).Ordered := by
  unfold Session.completion
  split
  · exact h.raised _
  · rename_i r hr
    split_ifs with hnone hsha
    · exact h.raised _
    · exact h.raised _
    · apply h.awaitCompletion
      have hrolling := hquiet r hr (by simpa using hsha)
      have hheld := h.stage_of_table hr
      unfold Session.stage at hrolling ⊢
      simp only [Phase.Fits]
      split_ifs at hrolling ⊢ <;> simp_all [Session.Holds]
      omega

theorem Ordered.completed (h : s.Ordered) {request : Request} (hi : s.requests.get? i = some (.complete r request))
    (outcome : Except Fault Fields) :
    (s.after i (s.session.completed r request outcome) (if outcome.isOk then [.completed r] else [])).Ordered := by
  have hcompleting : s.session.stage r = .completing := (h.fits i _ r hi rfl).1
  obtain ⟨hheld, hadmission, hnone, hadmitting, -⟩ := Session.stage_completing.mp hcompleting
  have hothers : ∀ {b deeds j q}, Turn r .completing deeds b → b ≠ .rolling → j ≠ i → s.requests.get? j = some q →
      q.ref = some r → q.Fits (s.session.stage r) → q.Fits b := by
    intro b deeds j q hturn hb hji hj hq hfit
    rw [hcompleting] at hfit
    refine hfit.turn hturn hq hb (by simp) (fun _ htoken => ?_)
    exact hji (h.unique j i q _ _ hj hi htoken rfl)
  cases outcome with
  | error e =>
    have hstage : (s.session.change r fun x => { x with completing := false }).stage r = .open := by
      rw [Session.stage_open, Session.holds_change rfl]
      simp [Session.change, hheld, hadmission, hnone, hadmitting]
    refine h.changeAndRest (f := fun x => { x with completing := false }) rfl rfl rfl ?_ ?_ ?_ rfl ?_
    · rw [hcompleting, hstage]
      exact .inl .retry
    · exact fun _ => rfl
    · exact h.order r hheld.1
    · intro j q hji hj hq hfit
      rw [hstage]
      exact hothers .retry (by simp) hji hj hq hfit
  | ok response =>
    have hstage : ∀ c, (s.session.change r fun x => { x with completion := some c, completing := false }).stage r =
        .done := by
      intro c
      rw [Session.stage_done, Session.holds_change rfl]
      simp [Session.change, hheld, hadmission]
    refine h.changeAndRest (f := fun x => { x with completion := some (merge request.body
      (setdefault response "status" (.text "COMPLETED"))), completing := false }) rfl rfl rfl ?_ ?_ ?_ rfl ?_
    · rw [hcompleting, hstage]
      exact .inl .completed
    · exact fun _ => rfl
    · intro hno
      have hno' : (s.session.objects r).admission = none := hno
      simp [hno'] at hadmission
    · intro j q hji hj hq hfit
      rw [hstage]
      exact hothers .completed (by simp) hji hj hq hfit

theorem Ordered.abandonAdmission (h : s.Ordered) {request : Request} {response : Fields}
    (hi : s.requests.get? i = some (.answered r request response false))
    (hquiet : (s.session.objects r).completion = none → (s.session.objects r).completing = false ∧
      ∀ j q, j ≠ i → s.requests.get? j = some q → q.ref ≠ some r) :
    (s.after i (s.session.abandonAdmission request.executionId) []).Ordered := by
  obtain ⟨hfit, hmatch⟩ := h.fits i _ r hi rfl
  obtain ⟨hheld, hadmission⟩ := Session.holds_of_stage hfit
  have hr : s.session.executions.get? request.executionId = some r := hmatch.1 ▸ hheld.2
  simp only [Session.abandonAdmission, hr]
  split_ifs with hdone
  · exact h.rest s.session.lifecycle rfl
  · simp only [not_or, Option.not_isSome_iff_eq_none] at hdone
    obtain ⟨hcompleting, hnobody⟩ := hquiet hdone.2
    have hopen : s.session.stage r = .open := by
      rcases hfit with hf | hf | hf
      · exact hf
      · simp [Session.stage_completing, hcompleting] at hf
      · simp [Session.stage_done, hdone.2] at hf
    have hstage : (s.session.change r fun x => { x with admitting := true }).stage r = .rolling := by
      rw [Session.stage_rolling, Session.holds_change rfl]
      simp [Session.change, hheld, hadmission, hdone.2]
    refine h.change (f := fun x => { x with admitting := true }) rfl rfl ?_ (fun _ => hcompleting)
      (h.order r hheld.1) (.inr rfl) ?_ ?_ ?_ ?_
    · rw [hopen, hstage]
      exact .inl .rollBack
    · simp [Phase.ref]
    · intro _
      exact ⟨hstage, trivial⟩
    · intro j q hji hj hq
      exact absurd hq (hnobody j q hji hj)
    · intro x j q hx hji hj hq
      exact hji (h.unique j i q _ x hj hi hq hx)

theorem stage_forget_ne {s : Session} {r' : ℕ} (hr : s.Holds r) (h : r' ≠ r) : (s.forget r).stage r' = s.stage r' := by
  simp only [Session.forget, Session.stage, Session.change, hr.2, if_true, Function.update_of_ne h]
  by_cases hid : (s.objects r').request.executionId = (s.objects r).request.executionId
  · simp [hid, hr.2, h.symm]
  · rw [PyDict.get?_pop_ne _ hid]

theorem Ordered.abandoned (h : s.Ordered) (hi : s.requests.get? i = some (.abandon r)) (hattached : s.session.abandon)
    (outcome : Except Fault Unit) :
    (s.after i (s.session.abandoned r outcome)
      (if s.session.abandon ∧ outcome.isOk then [.abandoned r] else [])).Ordered := by
  have hrolling : s.session.stage r = .rolling := (h.fits i _ r hi rfl).1
  obtain ⟨hheld, hadmission, hnone, -⟩ := Session.stage_rolling.mp hrolling
  have hcompleting := h.flags r (.inr (.inr hrolling))
  have hothers : ∀ {b deeds j q}, Turn r .rolling deeds b → b ≠ .rolling → j ≠ i → s.requests.get? j = some q →
      q.ref = some r → q.Fits (s.session.stage r) → q.Fits b := by
    intro b deeds j q hturn hb hji hj hq hfit
    rw [hrolling] at hfit
    refine hfit.turn hturn hq hb (fun _ htoken => ?_) (by simp)
    exact hji (h.unique j i q _ _ hj hi htoken rfl)
  cases outcome with
  | error e =>
    have hstage : (s.session.change r fun x => { x with admissionError := some e, admitting := false }).stage r =
        .open := by
      rw [Session.stage_open, Session.holds_change rfl]
      simp [Session.change, hheld, hadmission, hnone, hcompleting]
    have hsession : s.session.abandoned r (.error e) =
        (s.session.change r fun x => { x with admissionError := some e, admitting := false }, .raised e) := by
      simp [Session.abandoned, Session.optional, hattached]
    rw [hsession]
    refine h.changeAndRest (f := fun x => { x with admissionError := some e, admitting := false }) rfl rfl rfl ?_
      (fun _ => hcompleting) (h.order r hheld.1) rfl ?_
    · rw [hrolling, hstage]
      exact .inl (by simpa [Except.isOk, Except.toBool] using Turn.kept)
    · intro j q hji hj hq hfit
      rw [hstage]
      exact hothers .kept (by simp) hji hj hq hfit
  | ok u =>
    have hsession : s.session.abandoned r (.ok u) = (s.session.forget r, .disconnected) := by
      simp [Session.abandoned, Session.optional, hattached]
    have hstage : (s.session.forget r).stage r = .gone := by
      have hlt := hheld.1
      simp only [Session.forget, Session.stage, Session.change, hheld.2, if_true, Function.update_self]
      simp [hlt]
    have hnobody : ∀ j q, j ≠ i → s.requests.get? j = some q → q.ref ≠ some r := by
      intro j q hji hj hq
      have hfit := hothers .abandoned (by simp) hji hj hq (h.fits j q r hj hq).1
      cases q <;> simp_all [Phase.Fits, Phase.ref]
    rw [hsession]
    refine h.step (r := r) (p := .disconnected) rfl rfl ?_ (fun r' hr' => stage_forget_ne hheld hr') ?_ ?_ ?_ ?_ ?_ ?_
      ?_ ?_
    · left
      simp only [after, hrolling, hstage, hattached, Except.isOk, Except.toBool, and_self, if_true]
      exact .abandoned
    · intro r' hr'
      simp [after, Session.forget, Session.change, hr']
    · intro k r' hk
      simp only [after, Session.forget, hheld.2, if_true, PyDict.get?_pop] at hk
      split_ifs at hk with hid
      obtain ⟨hlt, hid'⟩ := h.table k r' hk
      refine ⟨hlt, ?_⟩
      by_cases he : r' = r
      · subst r'
        simpa [after, Session.forget, Session.change] using hid'
      · simpa [after, Session.forget, Session.change, he] using hid'
    · simp [after, hstage]
    · intro r' hlt
      have hold := h.order r' hlt
      by_cases he : r' = r
      · subst r'
        simpa [after, Session.forget, Session.change] using hold
      · simpa [after, Session.forget, Session.change, he] using hold
    · simp [Phase.ref]
    · simp [Phase.ref]
    · intro j q hji hj hq
      exact absurd hq (hnobody j q hji hj)
    · simp [Phase.token]

theorem Ordered.awaitDrain (h : s.Ordered) (l : Lifecycle) (timed expired : Bool) :
    (s.after i (Session.awaitDrain { s.session with lifecycle := l } timed expired) []).Ordered := by
  unfold Session.awaitDrain
  split_ifs
  · exact h.rest l rfl
  · exact h.rest l rfl
  · exact h.rest .closed rfl

theorem Ordered.drain (h : s.Ordered) (timed expired : Bool) :
    (s.after i (s.session.drain timed expired) []).Ordered := by
  unfold Session.drain
  split_ifs
  · exact h.rest s.session.lifecycle rfl
  · exact h.awaitDrain .draining timed expired

/-- A roll-back never meets another request for the same execution: when the owner's connection breaks nobody else
holds the execution and no completion runs, and while the abandon callback runs neither a retry nor a completion comes
in. -/
def undisturbed (s : State) : ℕ × Action → Bool
  | (_, .admission request) | (_, .completion request) =>
    match s.session.executions.get? request.executionId with
    | none => true
    | some r =>
      (s.session.objects r).commandSha256 ≠ request.commandSha256 ||
        !((s.session.objects r).admission.isSome && (s.session.objects r).admitting)
  | (i, .disconnect) =>
    match s.requests.get? i with
    | some (.answered r _ _ false) =>
      (s.session.objects r).completion.isSome ||
        (!(s.session.objects r).completing && s.requests.entries.all fun e => e.1 = i || e.2.ref ≠ some r)
    | _ => true
  | (_, .abandoned _) => s.session.abandon
  | _ => true

theorem stage_ne_rolling {request : Request} (hr : s.session.executions.get? request.executionId = some r)
    (hsha : (s.session.objects r).commandSha256 = request.commandSha256)
    (hok : (match s.session.executions.get? request.executionId with
      | none => true
      | some r => (s.session.objects r).commandSha256 ≠ request.commandSha256 ||
          !((s.session.objects r).admission.isSome && (s.session.objects r).admitting)) = true) :
    s.session.stage r ≠ .rolling := by
  intro hrolling
  obtain ⟨-, hadmission, -, hadmitting⟩ := Session.stage_rolling.mp hrolling
  simp [hr, hsha, hadmission, hadmitting] at hok

theorem Ordered.next (h : s.Ordered) {a : ℕ × Action} (hok : s.undisturbed a) (hn : s.next a = some (t, p)) :
    t.Ordered := by
  obtain ⟨i, a⟩ := a
  unfold State.next at hn
  dsimp only at hn
  split at hn <;> simp only [put, Option.some.injEq, Prod.mk.injEq, reduceCtorEq] at hn
  · obtain ⟨rfl, -⟩ := hn
    exact h.admission fun r hr hsha => stage_ne_rolling hr hsha hok
  · obtain ⟨rfl, -⟩ := hn
    exact h.executionStart _ _
  · obtain ⟨rfl, -⟩ := hn
    exact h.completion fun r hr hsha => stage_ne_rolling hr hsha hok
  · obtain ⟨rfl, -⟩ := hn
    exact h.drain _ _
  · rename_i r request outcome hi
    obtain ⟨rfl, -⟩ := hn
    exact h.admitted hi outcome
  · rename_i r request expired hi
    obtain ⟨rfl, -⟩ := hn
    obtain ⟨hfit, hmatch⟩ := h.fits i _ r hi rfl
    exact h.awaitAdmission hfit hmatch
  · rename_i r request response duplicate hi
    obtain ⟨rfl, -⟩ := hn
    obtain ⟨hfit, hmatch⟩ := h.fits i _ r hi rfl
    refine h.stay s.session.lifecycle ?_ ?_
    · intro r' hr'
      obtain rfl : r = r' := by simpa [Phase.ref] using hr'
      exact ⟨hfit, hmatch⟩
    · intro x j q hx hji hj hq
      cases duplicate with
      | true => simp [Phase.token] at hx
      | false => exact hji (h.unique j i q _ x hj hi hq hx)
  · rename_i r request response duplicate hi
    obtain ⟨rfl, -⟩ := hn
    cases duplicate with
    | true => exact h.rest s.session.lifecycle rfl
    | false =>
      refine h.abandonAdmission hi ?_
      intro hnone
      simp only [undisturbed, hi, hnone, Option.isSome_none, Bool.false_or, Bool.and_eq_true, Bool.not_eq_true',
        List.all_eq_true, Bool.or_eq_true, decide_eq_true_eq] at hok
      refine ⟨hok.1, ?_⟩
      intro j q hji hj
      exact (hok.2 (j, q) (PyDict.get?_eq_some.mp hj)).resolve_left hji
  · rename_i r outcome hi
    obtain ⟨rfl, -⟩ := hn
    exact h.abandoned hi hok outcome
  · rename_i r request expired hi
    obtain ⟨rfl, -⟩ := hn
    exact h.awaitCompletion (h.fits i _ r hi rfl).1
  · rename_i r request outcome hi
    obtain ⟨rfl, -⟩ := hn
    exact h.completed hi outcome
  · rename_i timed expired hi
    obtain ⟨rfl, -⟩ := hn
    exact h.awaitDrain s.session.lifecycle timed expired

theorem Ordered.start (h : Start s) : s.Ordered := by
  obtain ⟨abandon, start, rfl⟩ := h
  refine ⟨?_, ?_, ?_, ?_, ?_, ?_⟩ <;> simp [Session.stage, Stage.Tallies]

theorem ordered_of_reachable (h : Reachable (system.restrict fun s l => s.undisturbed l.1) s) : s.Ordered :=
  h.invariant (fun _ hs => .start hs) fun _ _ _ hs hstep => hs.next hstep.2 hstep.1

/-- Every admit callback that returned was settled by one callback, or still waits in the table for it. -/
def SettledOnce (s : State) : Prop :=
  ∀ r, .admitted r ∈ s.log → s.log.count (.admitted r) = 1 ∧
    (s.log.count (.completed r) + s.log.count (.abandoned r) = 1 ∨
      s.log.count (.completed r) + s.log.count (.abandoned r) = 0 ∧ s.session.Holds r ∧
        (s.session.objects r).admission.isSome ∧ (s.session.objects r).completion = none)

def HasAnswer (s : State) (i r : ℕ) (request : Request) (response : Fields) : Prop :=
  ∃ duplicate, s.requests.get? i = some (.answered r request response duplicate) ∨
    s.requests.get? i = some (.delivered r request response duplicate)

def AnswersKept (s : State) : Prop :=
  ∀ i r request response, s.HasAnswer i r request response → .abandoned r ∉ s.log ∧
    ∀ q : Request, q.executionId = request.executionId → q.commandSha256 = request.commandSha256 →
      (∀ e, (s.session.completion q).2 ≠ .raised e) ∧
      (item q.body "endpoint_epoch" = item response "epoch" →
        item q.body "endpoint_sandbox_id" = item response "sandbox_id" →
        (q.body.get? "phase").getD (.text "start") ∈ [.text "start", .text "end"] →
        ∃ status duplicate, (s.session.executionStart q (.ok ())).2 = .acknowledged status duplicate)

theorem Ordered.settledOnce (h : s.Ordered) : s.SettledOnce := by
  intro r hr
  have htally := h.tallies r
  have hpos : 0 < s.log.count (.admitted r) := List.count_pos_iff.mpr hr
  cases hstage : s.session.stage r with
  | fresh | admitting | failed =>
    rw [hstage] at htally
    have := htally.1
    omega
  | «open» =>
    rw [hstage] at htally
    obtain ⟨hone, hc, ha⟩ := htally
    obtain ⟨hheld, hadmission, hnone, -⟩ := Session.stage_open.mp hstage
    exact ⟨hone, .inr ⟨by omega, hheld, hadmission, hnone⟩⟩
  | completing =>
    rw [hstage] at htally
    obtain ⟨hone, hc, ha⟩ := htally
    obtain ⟨hheld, hadmission, hnone, -⟩ := Session.stage_completing.mp hstage
    exact ⟨hone, .inr ⟨by omega, hheld, hadmission, hnone⟩⟩
  | rolling =>
    rw [hstage] at htally
    obtain ⟨hone, hc, ha⟩ := htally
    obtain ⟨hheld, hadmission, hnone, -⟩ := Session.stage_rolling.mp hstage
    exact ⟨hone, .inr ⟨by omega, hheld, hadmission, hnone⟩⟩
  | done | gone =>
    rw [hstage] at htally
    obtain ⟨hone, hc, ha⟩ := htally
    exact ⟨hone, .inl (by omega)⟩

theorem completion_accepted {q : Request} {e : Fault} (hr : s.session.executions.get? q.executionId = some r)
    (hadmission : (s.session.objects r).admission.isSome)
    (hsha : (s.session.objects r).commandSha256 = q.commandSha256) : (s.session.completion q).2 ≠ .raised e := by
  have hnone : (s.session.objects r).admission.isNone = false := by
    rw [← Option.not_isSome, hadmission]
    rfl
  simp only [Session.completion, hr, hnone, hsha, Bool.false_eq_true, ne_eq, not_true, if_false,
    Session.awaitCompletion]
  split_ifs
  · simp
  · split <;> simp

theorem executionStart_accepted {q : Request} {response : Fields}
    (hr : s.session.executions.get? q.executionId = some r)
    (hadmission : (s.session.objects r).admission = some response)
    (hsha : (s.session.objects r).commandSha256 = q.commandSha256)
    (hepoch : item q.body "endpoint_epoch" = item response "epoch")
    (hsandbox : item q.body "endpoint_sandbox_id" = item response "sandbox_id")
    (hphase : (q.body.get? "phase").getD (.text "start") ∈ [.text "start", .text "end"]) :
    ∃ status duplicate, (s.session.executionStart q (.ok ())).2 = .acknowledged status duplicate := by
  have hvalid : ¬((q.body.get? "phase").getD (.text "start") ≠ .text "start" ∧
      (q.body.get? "phase").getD (.text "start") ≠ .text "end") := by
    simp only [List.mem_cons, List.not_mem_nil, or_false] at hphase
    tauto
  have hok : Session.optional s.session.start (.ok ()) = .ok () := by
    unfold Session.optional
    split_ifs <;> rfl
  simp only [Session.executionStart, hr, hadmission, hsha, hepoch, hsandbox, ne_eq, not_true, or_self, if_false,
    hok]
  rw [if_neg hvalid]
  split_ifs
  · exact ⟨_, true, rfl⟩
  · exact ⟨_, false, rfl⟩

theorem Ordered.answersKept (h : s.Ordered) : s.AnswersKept := by
  rintro i r request response ⟨duplicate, hi⟩
  have hfacts : (s.session.stage r = .open ∨ s.session.stage r = .completing ∨ s.session.stage r = .done) ∧
      (s.session.objects r).request.executionId = request.executionId ∧
      (s.session.objects r).commandSha256 = request.commandSha256 ∧
      (s.session.objects r).admission = some response := by
    rcases hi with hi | hi
    · exact h.fits i _ r hi rfl
    · exact h.fits i _ r hi rfl
  obtain ⟨hstage, hid, hsha, hadmission⟩ := hfacts
  have hheld := (Session.holds_of_stage hstage).1
  refine ⟨?_, ?_⟩
  · have htally := h.tallies r
    have hnone : s.log.count (.abandoned r) = 0 := by
      rcases hstage with hs | hs | hs <;> rw [hs] at htally <;> exact htally.2.2
    exact List.count_eq_zero.mp hnone
  · intro q hq hq'
    have hr : s.session.executions.get? q.executionId = some r := by
      rw [hq, ← hid]
      exact hheld.2
    refine ⟨fun e => completion_accepted hr (by simp [hadmission]) (hsha.trans hq'.symm), ?_⟩
    intro hepoch hsandbox hphase
    exact executionStart_accepted hr hadmission (hsha.trans hq'.symm) hepoch hsandbox hphase

theorem settled_exactly_once (h : Reachable (system.restrict fun s l => s.undisturbed l.1) s) :
    s.SettledOnce ∧ s.AnswersKept :=
  ⟨(ordered_of_reachable h).settledOnce, (ordered_of_reachable h).answersKept⟩

def command (n : ℤ) : Request := { executionId := .text "e", commandSha256 := .number n }

theorem settled_exactly_once_retry :
    let s := (trace (guarded undisturbed next) {} [(0, .admission (command 1)), (0, .admitted (.ok ∅)),
      (0, .disconnect), (0, .abandoned (.ok ())), (1, .admission (command 1)), (1, .admitted (.ok ∅)), (1, .deliver),
      (2, .completion (command 1)), (2, .completed (.ok ∅))]).1
    s.log = [.completed 1, .admitted 1, .abandoned 0, .admitted 0] ∧ s.SettledOnce ∧ s.AnswersKept :=
  ⟨by decide +kernel, settled_exactly_once ⟨_, _, ⟨true, true, rfl⟩, run_guarded Start next undisturbed _ _⟩⟩

theorem rolled_back_while_completing :
    ∃ s, Reachable system s ∧ ¬ s.SettledOnce ∧ ¬ s.AnswersKept := by
  refine ⟨(trace next {} [(0, .admission (command 1)), (0, .admitted (.ok ∅)), (1, .admission (command 1)),
      (1, .deliver), (2, .completion (command 1)), (0, .disconnect), (2, .completed (.ok ∅)),
      (0, .abandoned (.ok ()))]).1, (Reachable.start (T := system) ⟨true, true, rfl⟩).trace _, ?_, ?_⟩
  · intro h
    have hr := h 0 (by decide +kernel)
    revert hr
    decide +kernel
  · intro h
    exact (h 1 0 (command 1) ((∅ : Fields).set "decision" (.text "ADMIT")) ⟨true, .inr (by decide +kernel)⟩).1
      (by decide +kernel)

end State

end ClawBox.Control
