import ClawBox.Control.Settlement

namespace ClawBox.Control

open Transition

def Session.admissionRunning (s : Session) : Bool :=
  s.executions.values.any fun r => (s.objects r).admission.isNone && (s.objects r).admitting

namespace Phase

def seesAdmission : Phase → Bool
  | .answered .. | .delivered .. | .abandon _ | .awaitCompletion .. | .complete .. => true
  | _ => false

end Phase

namespace Execution

def Finished (x : Execution) : Prop :=
  (x.admission.isSome → x.completion.isSome) ∧ (x.admission = none → x.admitting = false)

end Execution

namespace State

variable {s t : State} {i : ℕ} {p : Phase} {r : ℕ} {deeds : List Deed}

structure Drains (s : State) : Prop where
  table : ∀ k r, s.session.executions.get? k = some r →
    r < s.session.created ∧ (s.session.objects r).request.executionId = k
  admitCall : ∀ i r q, s.requests.get? i = some (.admitCall r q) →
    s.session.Holds r ∧ (s.session.objects r).admission = none ∧ (s.session.objects r).admitting = true
  alone : ∀ i j r q q', s.requests.get? i = some (.admitCall r q) → s.requests.get? j = some (.admitCall r q') → i = j
  seen : ∀ i p r, s.requests.get? i = some p → p.ref = some r →
    r < s.session.created ∧ (p.seesAdmission → (s.session.objects r).admission.isSome)
  drained : ∀ i, s.requests.get? i = some (.drained true) → s.session.lifecycle = .closed
  closed : s.session.lifecycle = .closed → ∀ k r, s.session.executions.get? k = some r → (s.session.objects r).Finished

theorem Drains.rest (h : s.Drains) (l : Lifecycle) (hl : s.session.lifecycle = .closed → l = .closed)
    (hclose : l = .closed → ∀ k r, s.session.executions.get? k = some r → (s.session.objects r).Finished)
    (hadm : ∀ r q, p ≠ .admitCall r q)
    (hseen : ∀ r, p.ref = some r → r < s.session.created ∧ (p.seesAdmission → (s.session.objects r).admission.isSome))
    (hdrained : p = .drained true → l = .closed) :
    (s.after i ({ s.session with lifecycle := l }, p) []).Drains where
  table := h.table
  admitCall j r q hj := by
    simp only [after, PyDict.get?_set] at hj
    split_ifs at hj with hji
    · exact absurd (Option.some.inj hj) (hadm r q)
    · exact h.admitCall j r q hj
  alone j k r q q' hj hk := by
    simp only [after, PyDict.get?_set] at hj hk
    split_ifs at hj hk
    · exact absurd (Option.some.inj hj) (hadm r q)
    · exact absurd (Option.some.inj hj) (hadm r q)
    · exact absurd (Option.some.inj hk) (hadm r q')
    · exact h.alone j k r q q' hj hk
  seen j q r hj hq := by
    simp only [after, PyDict.get?_set] at hj
    split_ifs at hj with hji
    · obtain rfl := Option.some.inj hj
      exact hseen r hq
    · exact h.seen j q r hj hq
  drained j hj := by
    simp only [after, PyDict.get?_set] at hj
    split_ifs at hj with hji
    · exact hdrained (Option.some.inj hj)
    · exact hl (h.drained j hj)
  closed hl' := hclose hl'

theorem Drains.raised (h : s.Drains) (e : Fault) : (s.after i (s.session, .raised e) []).Drains :=
  h.rest s.session.lifecycle id h.closed (by simp) (by simp [Phase.ref]) (by simp)

theorem Drains.change (h : s.Drains) {f : Execution → Execution}
    (hid : (f (s.session.objects r)).request = (s.session.objects r).request)
    (hknown : (s.session.objects r).admission.isSome ∨ ∃ q, s.requests.get? i = some (.admitCall r q))
    (hkeep : (s.session.objects r).admission.isSome → (f (s.session.objects r)).admission.isSome)
    (hclosed : s.session.lifecycle = .closed → s.session.Holds r → (f (s.session.objects r)).Finished)
    (hadm : ∀ r q, p ≠ .admitCall r q)
    (hseen : ∀ r', p.ref = some r' → r' = r ∧ r < s.session.created ∧ (f (s.session.objects r)).admission.isSome)
    (hdrained : p ≠ .drained true) : (s.after i (s.session.change r f, p) deeds).Drains where
  table k r' hk := by
    obtain ⟨hlt, hid'⟩ := h.table k r' hk
    refine ⟨hlt, ?_⟩
    by_cases he : r' = r
    · subst r'
      simp [after, Session.change, hid, hid']
    · simp [after, Session.change, he, hid']
  admitCall j r' q hj := by
    simp only [after, PyDict.get?_set] at hj
    split_ifs at hj with hji
    · exact absurd (Option.some.inj hj) (hadm r' q)
    · obtain ⟨hheld, hnone, hadmitting⟩ := h.admitCall j r' q hj
      -- the writer is not the owner of an admission that another request runs
      have he : r' ≠ r := by
        rintro rfl
        rcases hknown with hsome | ⟨q', hi⟩
        · simp [hnone] at hsome
        · exact hji (h.alone j i r' q q' hj hi)
      simp only [after, Session.Holds, Session.change, Function.update_of_ne he]
      exact ⟨hheld, hnone, hadmitting⟩
  alone j k r' q q' hj hk := by
    simp only [after, PyDict.get?_set] at hj hk
    split_ifs at hj hk
    · exact absurd (Option.some.inj hj) (hadm r' q)
    · exact absurd (Option.some.inj hj) (hadm r' q)
    · exact absurd (Option.some.inj hk) (hadm r' q')
    · exact h.alone j k r' q q' hj hk
  seen j q r' hj hq := by
    simp only [after, PyDict.get?_set] at hj
    split_ifs at hj with hji
    · obtain rfl := Option.some.inj hj
      obtain ⟨rfl, hlt, hsome⟩ := hseen r' hq
      exact ⟨hlt, fun _ => by simpa [after, Session.change] using hsome⟩
    · obtain ⟨hlt, hsome⟩ := h.seen j q r' hj hq
      refine ⟨hlt, fun hs => ?_⟩
      by_cases he : r' = r
      · subst r'
        simpa [after, Session.change] using hkeep (hsome hs)
      · simpa [after, Session.change, he] using hsome hs
  drained j hj := by
    simp only [after, PyDict.get?_set] at hj
    split_ifs at hj with hji
    · exact absurd (Option.some.inj hj) hdrained
    · exact h.drained j hj
  closed hl k r' hk := by
    by_cases he : r' = r
    · subst r'
      obtain ⟨hlt, hid'⟩ := h.table k r hk
      simpa [after, Session.change] using hclosed hl ⟨hlt, by rw [hid']; exact hk⟩
    · simpa [after, Session.change, he] using h.closed hl k r' hk

theorem Drains.finished (h : s.Drains) (hl : s.session.lifecycle = .closed) (hr : s.session.Holds r) :
    (s.session.objects r).Finished :=
  h.closed hl _ r hr.2

theorem Drains.create (h : s.Drains) {request : Request} (hactive : s.session.lifecycle = .active)
    (hfree : s.session.executions.get? request.executionId = none) :
    (s.after i (s.session.create request, .admitCall s.session.created request) []).Drains where
  table k r hk := by
    simp only [after, Session.create, PyDict.get?_set] at hk ⊢
    split_ifs at hk with hid
    · obtain rfl := Option.some.inj hk
      simp [hid]
    · obtain ⟨hlt, hid'⟩ := h.table k r hk
      have hne : r ≠ s.session.created := by omega
      rw [Function.update_of_ne hne]
      exact ⟨by omega, hid'⟩
  admitCall j r q hj := by
    simp only [after, PyDict.get?_set] at hj
    split_ifs at hj with hji
    · obtain ⟨rfl, rfl⟩ := Phase.admitCall.inj (Option.some.inj hj)
      simp [after, Session.create, Session.Holds]
    · obtain ⟨⟨hlt, hk⟩, hnone, hadmitting⟩ := h.admitCall j r q hj
      have hne : r ≠ s.session.created := by omega
      simp only [after, Session.create, Session.Holds, Function.update_of_ne hne]
      refine ⟨⟨by omega, ?_⟩, hnone, hadmitting⟩
      rw [PyDict.get?_set_ne, hk]
      intro hid
      simp [hid, hfree] at hk
  alone j k r q q' hj hk := by
    simp only [after, PyDict.get?_set] at hj hk
    split_ifs at hj hk with hji hki hki
    · rw [hji, hki]
    · obtain ⟨rfl, rfl⟩ := Phase.admitCall.inj (Option.some.inj hj)
      have := (h.admitCall k _ q' hk).1.1
      omega
    · obtain ⟨rfl, rfl⟩ := Phase.admitCall.inj (Option.some.inj hk)
      have := (h.admitCall j _ q hj).1.1
      omega
    · exact h.alone j k r q q' hj hk
  seen j q r hj hq := by
    simp only [after, PyDict.get?_set] at hj
    split_ifs at hj with hji
    · obtain rfl := Option.some.inj hj
      obtain rfl : s.session.created = r := by simpa [Phase.ref] using hq
      exact ⟨by simp [after, Session.create], by simp [Phase.seesAdmission]⟩
    · obtain ⟨hlt, hsome⟩ := h.seen j q r hj hq
      have hne : r ≠ s.session.created := by omega
      simp only [after, Session.create, Function.update_of_ne hne]
      exact ⟨by omega, hsome⟩
  drained j hj := by
    simp only [after, PyDict.get?_set] at hj
    split_ifs at hj with hji
    · simp at hj
    · have hl := h.drained j hj
      simp [hactive] at hl
  closed hl := by
    simp [after, Session.create, hactive] at hl

theorem Drains.awaitAdmission (h : s.Drains) {request : Request} (hr : r < s.session.created) :
    (s.after i (s.session.awaitAdmission r request) []).Drains := by
  unfold Session.awaitAdmission
  split_ifs
  · exact h.rest s.session.lifecycle id h.closed (by simp) (by simpa [Phase.ref, Phase.seesAdmission] using hr)
      (by simp)
  · split
    · exact h.raised _
    · rename_i response hresponse
      exact h.rest s.session.lifecycle id h.closed (by simp) (by simpa [Phase.ref, hresponse] using hr) (by simp)

theorem Drains.admission (h : s.Drains) (request : Request) : (s.after i (s.session.admission request) []).Drains := by
  unfold Session.admission
  split_ifs with hactive
  · exact h.raised _
  · split
    · rename_i hfree
      exact h.create (by simpa using hactive) hfree
    · rename_i r hr
      split_ifs
      · exact h.raised _
      · exact h.awaitAdmission (h.table _ r hr).1

theorem Drains.admitted (h : s.Drains) {request : Request} (hi : s.requests.get? i = some (.admitCall r request))
    (outcome : Except Fault Fields) (deeds : List Deed) :
    (s.after i (s.session.admitted r request outcome) deeds).Drains := by
  obtain ⟨hheld, hnone, hadmitting⟩ := h.admitCall i r request hi
  -- an admission still running keeps the session from being closed
  have hopen : s.session.lifecycle ≠ .closed := by
    intro hl
    have := (h.finished hl hheld).2 hnone
    simp [hadmitting] at this
  unfold Session.admitted
  split
  · rename_i e _
    refine h.change (f := fun x => { x with admissionError := some e, admitting := false }) rfl (.inr ⟨_, hi⟩) id
      (fun hl => absurd hl hopen) ?_ ?_ ?_
    · simp
    · simp [Phase.ref]
    · simp
  · rename_i response _
    refine h.change (f := fun x => { x with admission := some response, admitting := false }) rfl (.inr ⟨_, hi⟩)
      (fun _ => rfl) (fun hl => absurd hl hopen) ?_ ?_ ?_
    · simp
    · intro r' hr'
      obtain rfl : r = r' := by simpa [Phase.ref] using hr'
      exact ⟨rfl, hheld.1, rfl⟩
    · simp

theorem Drains.executionStart (h : s.Drains) (request : Request) (outcome : Except Fault Unit) :
    (s.after i (s.session.executionStart request outcome) []).Drains := by
  unfold Session.executionStart
  split
  · exact h.raised _
  · rename_i r hr
    split
    · exact h.raised _
    · rename_i admission hadmission
      dsimp only
      split_ifs
      · exact h.raised _
      · exact h.raised _
      · exact h.raised _
      · exact h.rest s.session.lifecycle id h.closed (by simp) (by simp [Phase.ref]) (by simp)
      · split
        · exact h.raised _
        · exact h.change rfl (.inl (by simp [hadmission])) id (fun hl hheld => h.finished hl hheld) (by simp)
            (by simp [Phase.ref]) (by simp)

theorem Drains.awaitCompletion (h : s.Drains) {request : Request} (hr : r < s.session.created)
    (hadmission : (s.session.objects r).admission.isSome) :
    (s.after i (s.session.awaitCompletion r request) []).Drains := by
  unfold Session.awaitCompletion
  split_ifs
  · exact h.rest s.session.lifecycle id h.closed (by simp) (by simpa [Phase.ref, hadmission] using hr) (by simp)
  · split
    · exact h.rest s.session.lifecycle id h.closed (by simp) (by simp [Phase.ref]) (by simp)
    · refine h.change (f := fun x => { x with completing := true }) rfl (.inl hadmission) id
        (fun hl hheld => h.finished hl hheld) (by simp) ?_ (by simp)
      intro r' hr'
      obtain rfl : r = r' := by simpa [Phase.ref] using hr'
      exact ⟨rfl, hr, hadmission⟩

theorem Drains.completion (h : s.Drains) (request : Request) :
    (s.after i (s.session.completion request) []).Drains := by
  unfold Session.completion
  split
  · exact h.raised _
  · rename_i r hr
    split_ifs with hnone
    · exact h.raised _
    · exact h.raised _
    · exact h.awaitCompletion (h.table _ r hr).1 (by simpa [Option.isSome_iff_ne_none] using hnone)

theorem Drains.completed (h : s.Drains) {request : Request} (hi : s.requests.get? i = some (.complete r request))
    (outcome : Except Fault Fields) (deeds : List Deed) :
    (s.after i (s.session.completed r request outcome) deeds).Drains := by
  have hadmission := (h.seen i _ r hi rfl).2 rfl
  cases outcome with
  | error e =>
    exact h.change (f := fun x => { x with completing := false }) rfl (.inl hadmission) id
      (fun hl hheld => h.finished hl hheld) (by simp) (by simp [Phase.ref]) (by simp)
  | ok response =>
    exact h.change (f := fun x => { x with completion := some (merge request.body
      (setdefault response "status" (.text "COMPLETED"))), completing := false }) rfl (.inl hadmission) id
      (fun hl hheld => ⟨fun _ => rfl, (h.finished hl hheld).2⟩) (by simp) (by simp [Phase.ref]) (by simp)

theorem Drains.abandonAdmission (h : s.Drains) (k : Value) :
    (s.after i (s.session.abandonAdmission k) []).Drains := by
  unfold Session.abandonAdmission
  split
  · exact h.rest s.session.lifecycle id h.closed (by simp) (by simp [Phase.ref]) (by simp)
  · rename_i r hr
    split_ifs with hdone
    · exact h.rest s.session.lifecycle id h.closed (by simp) (by simp [Phase.ref]) (by simp)
    · simp only [not_or, Option.not_isSome_iff_eq_none, Option.isNone_iff_eq_none] at hdone
      have hadmission : (s.session.objects r).admission.isSome := Option.isSome_iff_ne_none.mpr hdone.1
      refine h.change (f := fun x => { x with admitting := true }) rfl (.inl hadmission) id ?_ (by simp) ?_ (by simp)
      · intro hl hheld
        have hcompletion := (h.finished hl hheld).1 hadmission
        simp [hdone.2] at hcompletion
      · intro r' hr'
        obtain rfl : r = r' := by simpa [Phase.ref] using hr'
        exact ⟨rfl, (h.table _ r hr).1, hadmission⟩

theorem Drains.forget (h : s.Drains) (hadmission : (s.session.objects r).admission.isSome) :
    (s.after i (s.session.forget r, .disconnected) deeds).Drains := by
  have hchange : (s.after i (s.session.change r fun x => { x with admitting := false }, .disconnected) deeds).Drains :=
    h.change rfl (.inl hadmission) id
      (fun hl hheld => ⟨(h.finished hl hheld).1, fun _ => rfl⟩) (by simp) (by simp [Phase.ref]) (by simp)
  have hsub : ∀ k r', (s.session.forget r).executions.get? k = some r' → s.session.executions.get? k = some r' := by
    intro k r' hk
    simp only [Session.forget] at hk
    split_ifs at hk
    · rw [PyDict.get?_pop] at hk
      split_ifs at hk
      exact hk
    · exact hk
  refine ⟨fun k r' hk => hchange.table k r' (hsub k r' hk), ?_, hchange.alone, hchange.seen, hchange.drained,
    fun hl k r' hk => hchange.closed hl k r' (hsub k r' hk)⟩
  intro j r' q hj
  obtain ⟨hheld, hnone, hadmitting⟩ := hchange.admitCall j r' q hj
  refine ⟨⟨hheld.1, ?_⟩, hnone, hadmitting⟩
  have he : r' ≠ r := by
    rintro rfl
    simp only [after, Session.change, Function.update_self] at hnone
    simp [hnone] at hadmission
  have hk : s.session.executions.get? (s.session.objects r').request.executionId = some r' := by
    simpa [after, Session.change, he] using hheld.2
  simp only [after, Session.forget, Session.change, Function.update_of_ne he]
  split_ifs with hown
  · rw [PyDict.get?_pop_ne, hk]
    intro hid
    rw [hid, hown] at hk
    exact he (Option.some.inj hk).symm
  · exact hk

theorem Drains.abandoned (h : s.Drains) (hi : s.requests.get? i = some (.abandon r)) (outcome : Except Fault Unit)
    (deeds : List Deed) : (s.after i (s.session.abandoned r outcome) deeds).Drains := by
  have hadmission := (h.seen i _ r hi rfl).2 rfl
  unfold Session.abandoned
  split
  · rename_i e _
    exact h.change (f := fun x => { x with admissionError := some e, admitting := false }) rfl (.inl hadmission) id
      (fun hl hheld => ⟨(h.finished hl hheld).1, fun _ => rfl⟩) (by simp) (by simp [Phase.ref]) (by simp)
  · exact h.forget hadmission

theorem finished_of_closing (houtstanding : s.session.outstanding = false)
    (hrunning : s.session.admissionRunning = false) {k : Value} (hk : s.session.executions.get? k = some r) :
    (s.session.objects r).Finished := by
  have hmem : r ∈ s.session.executions.values := List.mem_map.mpr ⟨(k, r), PyDict.get?_eq_some.mp hk, rfl⟩
  simp only [Session.outstanding, Session.admissionRunning, List.any_eq_false] at houtstanding hrunning
  have ho := houtstanding r hmem
  have hr := hrunning r hmem
  constructor
  · intro hsome
    simpa [hsome, Option.isSome_iff_ne_none] using ho
  · intro hnone
    simpa [hnone] using hr

theorem Drains.awaitDrain (h : s.Drains) (l : Lifecycle) (hl : s.session.lifecycle = .closed → l = .closed)
    (hl' : l = .closed → s.session.lifecycle = .closed)
    (hok : s.session.outstanding || !s.session.admissionRunning) (timed expired : Bool) :
    (s.after i (Session.awaitDrain { s.session with lifecycle := l } timed expired) []).Drains := by
  have hsame : Session.outstanding { s.session with lifecycle := l } = s.session.outstanding := rfl
  unfold Session.awaitDrain
  rw [hsame]
  split_ifs with houtstanding
  · exact h.rest l hl (fun hc => h.closed (hl' hc)) (by simp) (by simp [Phase.ref]) (by simp)
  · exact h.rest l hl (fun hc => h.closed (hl' hc)) (by simp) (by simp [Phase.ref]) (by simp)
  · have hno : s.session.outstanding = false := by simpa using houtstanding
    have hrunning : s.session.admissionRunning = false := by simpa [hno] using hok
    exact h.rest .closed (fun _ => rfl) (fun _ k r hk => finished_of_closing hno hrunning hk) (by simp)
      (by simp [Phase.ref]) (fun _ => rfl)

theorem Drains.drain (h : s.Drains) (hok : s.session.outstanding || !s.session.admissionRunning)
    (timed expired : Bool) : (s.after i (s.session.drain timed expired) []).Drains := by
  unfold Session.drain
  split_ifs with hclosed
  · exact h.rest s.session.lifecycle id h.closed (by simp) (by simp [Phase.ref]) (fun _ => hclosed)
  · exact h.awaitDrain .draining (fun hl => absurd hl hclosed) (by simp) hok timed expired

/-- `drain` never looks at a table without outstanding executions while an admit callback runs. -/
def drainsQuietly (s : State) : ℕ × Action → Bool
  | (_, .drain _ _) => s.session.outstanding || !s.session.admissionRunning
  | (i, .wake _) =>
    match s.requests.get? i with
    | some (.drain _) => s.session.outstanding || !s.session.admissionRunning
    | _ => true
  | _ => true

theorem Drains.next (h : s.Drains) {a : ℕ × Action} (hok : s.drainsQuietly a) (hn : s.next a = some (t, p)) :
    t.Drains := by
  obtain ⟨i, a⟩ := a
  unfold State.next at hn
  dsimp only at hn
  split at hn <;> simp only [put, Option.some.injEq, Prod.mk.injEq, reduceCtorEq] at hn
  · obtain ⟨rfl, -⟩ := hn
    exact h.admission _
  · obtain ⟨rfl, -⟩ := hn
    exact h.executionStart _ _
  · obtain ⟨rfl, -⟩ := hn
    exact h.completion _
  · obtain ⟨rfl, -⟩ := hn
    exact h.drain hok _ _
  · rename_i r request outcome hi
    obtain ⟨rfl, -⟩ := hn
    exact h.admitted hi outcome _
  · rename_i r request expired hi
    obtain ⟨rfl, -⟩ := hn
    exact h.awaitAdmission (h.seen i _ r hi rfl).1
  · rename_i r request response duplicate hi
    obtain ⟨rfl, -⟩ := hn
    refine h.rest s.session.lifecycle id h.closed (by simp) ?_ (by simp)
    intro r' hr'
    exact h.seen i (.answered r request response duplicate) r' hi hr'
  · rename_i r request response duplicate hi
    obtain ⟨rfl, -⟩ := hn
    cases duplicate with
    | true => exact h.rest s.session.lifecycle id h.closed (by simp) (by simp [Phase.ref]) (by simp)
    | false => exact h.abandonAdmission _
  · rename_i r outcome hi
    obtain ⟨rfl, -⟩ := hn
    exact h.abandoned hi outcome _
  · rename_i r request expired hi
    obtain ⟨rfl, -⟩ := hn
    obtain ⟨hr, hadmission⟩ := h.seen i _ r hi rfl
    exact h.awaitCompletion hr (hadmission rfl)
  · rename_i r request outcome hi
    obtain ⟨rfl, -⟩ := hn
    exact h.completed hi outcome _
  · rename_i timed expired hi
    obtain ⟨rfl, -⟩ := hn
    simp only [drainsQuietly, hi] at hok
    exact h.awaitDrain s.session.lifecycle id id hok timed expired

theorem Drains.start (h : Start s) : s.Drains := by
  obtain ⟨abandon, start, rfl⟩ := h
  refine ⟨?_, ?_, ?_, ?_, ?_, ?_⟩ <;> simp

def Drained (s : State) : Prop := ∃ i, s.requests.get? i = some (.drained true)

def NothingLeft (s : State) : Prop :=
  s.session.lifecycle = .closed ∧
    ∀ k r, s.session.executions.get? k = some r →
      ¬((s.session.objects r).admission.isSome ∧ (s.session.objects r).completion = none)

theorem drain_leaves_nothing (h : Reachable (system.restrict fun s l => s.drainsQuietly l.1) s) (hd : s.Drained) :
    s.NothingLeft := by
  have hs : s.Drains := h.invariant (fun _ hs => .start hs) fun _ _ _ hs hstep => hs.next hstep.2 hstep.1
  obtain ⟨i, hi⟩ := hd
  have hclosed := hs.drained i hi
  refine ⟨hclosed, ?_⟩
  rintro k r hk ⟨hadmission, hnone⟩
  have hcompletion := (hs.closed hclosed k r hk).1 hadmission
  simp [hnone] at hcompletion

theorem drain_leaves_nothing_waited :
    let s := (trace (guarded drainsQuietly next) {} [(0, .admission (command 1)), (0, .admitted (.ok ∅)),
      (1, .drain false false), (0, .deliver), (2, .completion (command 1)), (2, .completed (.ok ∅)),
      (1, .wake false)]).1
    s.Drained ∧ s.NothingLeft := by
  have hd : (trace (guarded drainsQuietly next) {} [(0, .admission (command 1)), (0, .admitted (.ok ∅)),
      (1, .drain false false), (0, .deliver), (2, .completion (command 1)), (2, .completed (.ok ∅)),
      (1, .wake false)]).1.Drained := ⟨1, by decide +kernel⟩
  exact ⟨hd, drain_leaves_nothing ⟨_, _, ⟨true, true, rfl⟩, run_guarded Start next drainsQuietly _ _⟩ hd⟩

theorem admitted_after_closing : ∃ s, Reachable system s ∧ s.Drained ∧ ¬ s.NothingLeft := by
  refine ⟨(trace next {} [(0, .admission (command 1)), (1, .drain false false), (0, .admitted (.ok ∅))]).1,
    (Reachable.start (T := system) ⟨true, true, rfl⟩).trace _, ⟨1, by decide +kernel⟩, ?_⟩
  intro h
  exact h.2 (.text "e") 0 (by decide +kernel) (by decide +kernel)

end State

end ClawBox.Control
