import ClawBox.Control.Settlement

namespace ClawBox.Control

open Transition

namespace State

variable {s t : State} {i : ℕ} {p : Phase} {r : ℕ}

def Owns (s : State) (i r : ℕ) (p : Phase) : Prop := s.requests.get? i = some p ∧ p.token = some (r, false)

structure Owned (s : State) : Prop where
  table : ∀ k r, s.session.executions.get? k = some r →
    r < s.session.created ∧ (s.session.objects r).request.executionId = k
  held : ∀ i r p, s.Owns i r p → s.session.Holds r ∧ p.Matches (s.session.objects r)
  unique : ∀ i j r p q, s.Owns i r p → s.Owns j r q → i = j

theorem Owned.step (h : s.Owned) {p : Phase} {session : Session} {deeds : List Deed}
    (htable : ∀ k r, session.executions.get? k = some r →
      r < session.created ∧ (session.objects r).request.executionId = k)
    (hothers : ∀ j r q, j ≠ i → s.Owns j r q → session.Holds r ∧ q.Matches (session.objects r))
    (hself : ∀ r, p.token = some (r, false) →
      session.Holds r ∧ p.Matches (session.objects r) ∧ ∀ j q, j ≠ i → ¬s.Owns j r q) :
    (s.after i (session, p) deeds).Owned := by
  have hsplit : ∀ j r q, (s.after i (session, p) deeds).Owns j r q →
      (j = i ∧ q = p ∧ p.token = some (r, false)) ∨ (j ≠ i ∧ s.Owns j r q) := by
    rintro j r q ⟨hj, ht⟩
    simp only [after, PyDict.get?_set] at hj
    split_ifs at hj with hji
    · cases hj
      exact .inl ⟨hji, rfl, ht⟩
    · exact .inr ⟨hji, hj, ht⟩
  refine ⟨htable, ?_, ?_⟩
  · intro j r q hq
    rcases hsplit j r q hq with ⟨-, rfl, ht⟩ | ⟨hji, hown⟩
    · obtain ⟨hheld, hmatch, -⟩ := hself r ht
      exact ⟨hheld, hmatch⟩
    · exact hothers j r q hji hown
  · intro j k r q q' hj hk
    rcases hsplit j r q hj with ⟨rfl, -, ht⟩ | ⟨hji, hown⟩
    · rcases hsplit k r q' hk with ⟨rfl, -, -⟩ | ⟨hki, hown'⟩
      · rfl
      · exact absurd hown' ((hself r ht).2.2 k q' hki)
    · rcases hsplit k r q' hk with ⟨rfl, -, ht⟩ | ⟨hki, hown'⟩
      · exact absurd hown ((hself r ht).2.2 j q hji)
      · exact h.unique j k r q q' hown hown'

theorem Owned.rest (h : s.Owned) (l : Lifecycle) {deeds : List Deed} (hp : ∀ r, p.token ≠ some (r, false)) :
    (s.after i ({ s.session with lifecycle := l }, p) deeds).Owned := by
  refine h.step h.table (fun j r q _ hown => h.held j r q hown) ?_
  intro r hr
  exact absurd hr (hp r)

theorem Owned.change (h : s.Owned) {f : Execution → Execution} {deeds : List Deed}
    (hrequest : (f (s.session.objects r)).request = (s.session.objects r).request)
    (hothers : ∀ j q, j ≠ i → s.Owns j r q → q.Matches (f (s.session.objects r)))
    (hself : ∀ x, p.token = some (x, false) →
      x = r ∧ s.session.Holds r ∧ p.Matches (f (s.session.objects r)) ∧ ∀ j q, j ≠ i → ¬s.Owns j r q) :
    (s.after i (s.session.change r f, p) deeds).Owned := by
  have hid : ∀ x, ((s.session.change r f).objects x).request = (s.session.objects x).request := by
    intro x
    by_cases hx : x = r
    · simp [Session.change, hx, hrequest]
    · simp [Session.change, hx]
  have hholds : ∀ x, s.session.Holds x → (s.session.change r f).Holds x := by
    intro x hx
    unfold Session.Holds
    rw [hid]
    exact hx
  refine h.step ?_ ?_ ?_
  · intro k x hk
    obtain ⟨hlt, hke⟩ := h.table k x hk
    exact ⟨hlt, by rw [hid, hke]⟩
  · intro j x q hj hown
    obtain ⟨hheld, hmatch⟩ := h.held j x q hown
    refine ⟨hholds x hheld, ?_⟩
    by_cases hx : x = r
    · subst hx
      simpa [Session.change] using hothers j q hj hown
    · simpa [Session.change, hx] using hmatch
  · intro x hx
    obtain ⟨rfl, hheld, hmatch, halone⟩ := hself x hx
    exact ⟨hholds x hheld, by simpa [Session.change] using hmatch, halone⟩

theorem Owned.flags (h : s.Owned) {f : Execution → Execution} {deeds : List Deed}
    (hrequest : (f (s.session.objects r)).request = (s.session.objects r).request)
    (hsha : (f (s.session.objects r)).commandSha256 = (s.session.objects r).commandSha256)
    (hadmission : (f (s.session.objects r)).admission = (s.session.objects r).admission)
    (hp : ∀ x, p.token ≠ some (x, false)) : (s.after i (s.session.change r f, p) deeds).Owned := by
  refine h.change hrequest ?_ fun x hx => absurd hx (hp x)
  intro j q _ hown
  obtain ⟨-, hmatch⟩ := h.held j r q hown
  cases q <;> simp_all [Phase.Matches]

theorem Owned.awaitAdmission (h : s.Owned) (r : ℕ) (request : Request) :
    (s.after i (s.session.awaitAdmission r request) []).Owned := by
  unfold Session.awaitAdmission
  split_ifs
  · exact h.rest s.session.lifecycle (by simp [Phase.token])
  · split
    · exact h.rest s.session.lifecycle (by simp [Phase.token, runtimeError])
    · exact h.rest s.session.lifecycle (by simp [Phase.token])

theorem Owned.create (h : s.Owned) {request : Request} (hfree : s.session.executions.get? request.executionId = none) :
    (s.after i (s.session.create request, .admitCall s.session.created request) []).Owned := by
  have hlt : ∀ j r q, s.Owns j r q → r < s.session.created := fun j r q hown => (h.held j r q hown).1.1
  refine h.step ?_ ?_ ?_
  · intro k r hk
    simp only [Session.create, PyDict.get?_set] at hk ⊢
    split_ifs at hk with hid
    · cases hk
      exact ⟨by simp, by simp [hid]⟩
    · obtain ⟨hr, he⟩ := h.table k r hk
      have hne : r ≠ s.session.created := by omega
      exact ⟨by omega, by simpa [hne] using he⟩
  · intro j r q _ hown
    obtain ⟨⟨hr, hk⟩, hmatch⟩ := h.held j r q hown
    have hne : r ≠ s.session.created := by omega
    refine ⟨⟨?_, ?_⟩, ?_⟩
    · simp only [Session.create]
      omega
    · simp only [Session.create, Function.update_of_ne hne]
      rw [PyDict.get?_set_ne, hk]
      intro hid
      rw [hid, hfree] at hk
      cases hk
    · simpa [Session.create, hne] using hmatch
  · intro r hr
    simp only [Phase.token, Option.some.injEq, Prod.mk.injEq, and_true] at hr
    subst hr
    refine ⟨⟨?_, ?_⟩, ?_, ?_⟩
    · simp [Session.create]
    · simp [Session.create]
    · simp [Session.create, Phase.Matches]
    · intro j q _ hown
      exact absurd (hlt j _ q hown) (Nat.lt_irrefl _)

theorem Owned.admission (h : s.Owned) (request : Request) : (s.after i (s.session.admission request) []).Owned := by
  unfold Session.admission
  split_ifs
  · exact h.rest s.session.lifecycle (by simp [Phase.token, runtimeError])
  · split
    · rename_i hfree
      exact h.create hfree
    · split_ifs
      · exact h.rest s.session.lifecycle (by simp [Phase.token, valueError])
      · exact h.awaitAdmission _ request

theorem Owned.admitted (h : s.Owned) {request : Request} (hi : s.requests.get? i = some (.admitCall r request))
    (outcome : Except Fault Fields) (deeds : List Deed) :
    (s.after i (s.session.admitted r request outcome) deeds).Owned := by
  have hown : s.Owns i r (.admitCall r request) := ⟨hi, rfl⟩
  obtain ⟨hheld, hmatch⟩ := h.held i r _ hown
  have halone : ∀ j q, j ≠ i → ¬s.Owns j r q := fun j q hj hq => hj (h.unique j i r q _ hq hown)
  unfold Session.admitted
  split
  · refine h.change rfl (fun j q hj hq => absurd hq (halone j q hj)) ?_
    simp [Phase.token]
  · refine h.change rfl (fun j q hj hq => absurd hq (halone j q hj)) ?_
    intro x hx
    simp only [Phase.token, Option.some.injEq, Prod.mk.injEq, and_true] at hx
    subst hx
    exact ⟨rfl, hheld, ⟨hmatch.1, hmatch.2, rfl⟩, halone⟩

theorem Owned.executionStart (h : s.Owned) (request : Request) (outcome : Except Fault Unit) :
    (s.after i (s.session.executionStart request outcome) []).Owned := by
  unfold Session.executionStart
  split
  · exact h.rest s.session.lifecycle (by simp [Phase.token, valueError])
  · split
    · exact h.rest s.session.lifecycle (by simp [Phase.token, valueError])
    · dsimp only
      split_ifs
      · exact h.rest s.session.lifecycle (by simp [Phase.token, valueError])
      · exact h.rest s.session.lifecycle (by simp [Phase.token, valueError])
      · exact h.rest s.session.lifecycle (by simp [Phase.token, valueError])
      · exact h.rest s.session.lifecycle (by simp [Phase.token])
      · split
        · exact h.rest s.session.lifecycle (by simp [Phase.token])
        · exact h.flags rfl rfl rfl (by simp [Phase.token])

theorem Owned.awaitCompletion (h : s.Owned) (r : ℕ) (request : Request) :
    (s.after i (s.session.awaitCompletion r request) []).Owned := by
  unfold Session.awaitCompletion
  split_ifs
  · exact h.rest s.session.lifecycle (by simp [Phase.token])
  · split
    · exact h.rest s.session.lifecycle (by simp [Phase.token])
    · exact h.flags rfl rfl rfl (by simp [Phase.token])

theorem Owned.completion (h : s.Owned) (request : Request) :
    (s.after i (s.session.completion request) []).Owned := by
  unfold Session.completion
  split
  · exact h.rest s.session.lifecycle (by simp [Phase.token, valueError])
  · split_ifs
    · exact h.rest s.session.lifecycle (by simp [Phase.token, valueError])
    · exact h.rest s.session.lifecycle (by simp [Phase.token, valueError])
    · exact h.awaitCompletion _ request

theorem Owned.completed (h : s.Owned) (r : ℕ) (request : Request) (outcome : Except Fault Fields) (deeds : List Deed) :
    (s.after i (s.session.completed r request outcome) deeds).Owned := by
  cases outcome with
  | error e => exact h.flags rfl rfl rfl (by simp [Phase.token])
  | ok response => exact h.flags rfl rfl rfl (by simp [Phase.token])

theorem Owned.disconnect (h : s.Owned) {request : Request} {response : Fields}
    (hi : s.requests.get? i = some (.answered r request response false)) :
    (s.after i (s.session.abandonAdmission request.executionId) []).Owned := by
  have hown : s.Owns i r (.answered r request response false) := ⟨hi, rfl⟩
  obtain ⟨hheld, hmatch⟩ := h.held i r _ hown
  have halone : ∀ j q, j ≠ i → ¬s.Owns j r q := fun j q hj hq => hj (h.unique j i r q _ hq hown)
  have hget : s.session.executions.get? request.executionId = some r := hmatch.1 ▸ hheld.2
  unfold Session.abandonAdmission
  rw [hget]
  dsimp only
  split_ifs
  · exact h.rest s.session.lifecycle (by simp [Phase.token])
  · refine h.change rfl (fun j q hj hq => absurd hq (halone j q hj)) ?_
    intro x hx
    simp only [Phase.token, Option.some.injEq, Prod.mk.injEq, and_true] at hx
    subst hx
    exact ⟨rfl, hheld, trivial, halone⟩

theorem Owned.forget (h : s.Owned) (hi : s.requests.get? i = some (.abandon r)) (deeds : List Deed) :
    (s.after i (s.session.forget r, .disconnected) deeds).Owned := by
  have hown : s.Owns i r (.abandon r) := ⟨hi, rfl⟩
  obtain ⟨⟨hr, hget⟩, -⟩ := h.held i r _ hown
  have hid : ∀ x, ((s.session.forget r).objects x).request = (s.session.objects x).request := by
    intro x
    by_cases hx : x = r
    · simp [Session.forget, Session.change, hx]
    · simp [Session.forget, Session.change, hx]
  have htable : (s.session.forget r).executions =
      s.session.executions.pop (s.session.objects r).request.executionId := if_pos hget
  refine h.step ?_ ?_ (by simp [Phase.token])
  · intro k x hk
    rw [htable, PyDict.get?_pop] at hk
    split_ifs at hk
    obtain ⟨hx, he⟩ := h.table k x hk
    exact ⟨hx, by rw [hid, he]⟩
  · intro j x q hj hq
    obtain ⟨⟨hx, hk⟩, hmatch⟩ := h.held j x q hq
    have hne : x ≠ r := by
      rintro rfl
      exact hj (h.unique j i x q _ hq hown)
    refine ⟨⟨hx, ?_⟩, ?_⟩
    · rw [hid, htable, PyDict.get?_pop_ne, hk]
      intro he
      rw [he, hget] at hk
      exact hne (Option.some.inj hk).symm
    · simpa [Session.forget, Session.change, hne] using hmatch

theorem Owned.abandoned (h : s.Owned) (hi : s.requests.get? i = some (.abandon r)) (outcome : Except Fault Unit)
    (deeds : List Deed) : (s.after i (s.session.abandoned r outcome) deeds).Owned := by
  unfold Session.abandoned
  split
  · exact h.flags rfl rfl rfl (by simp [Phase.token])
  · exact h.forget hi deeds

theorem Owned.awaitDrain (h : s.Owned) (l : Lifecycle) (timed expired : Bool) :
    (s.after i (Session.awaitDrain { s.session with lifecycle := l } timed expired) []).Owned := by
  unfold Session.awaitDrain
  split_ifs
  · exact h.rest l (by simp [Phase.token])
  · exact h.rest l (by simp [Phase.token])
  · exact h.rest .closed (by simp [Phase.token])

theorem Owned.drain (h : s.Owned) (timed expired : Bool) :
    (s.after i (s.session.drain timed expired) []).Owned := by
  unfold Session.drain
  split_ifs
  · exact h.rest s.session.lifecycle (by simp [Phase.token])
  · exact h.awaitDrain .draining timed expired

theorem Owned.next (h : s.Owned) {a : ℕ × Action} (hn : s.next a = some (t, p)) : t.Owned := by
  obtain ⟨i, a⟩ := a
  unfold State.next at hn
  dsimp only at hn
  split at hn <;> simp only [put, Option.some.injEq, Prod.mk.injEq, reduceCtorEq] at hn
  · obtain ⟨rfl, -⟩ := hn
    exact h.admission _
  · obtain ⟨rfl, -⟩ := hn
    exact h.executionStart _ _
  · obtain ⟨rfl, -⟩ := hn
    exact h.completion _
  · obtain ⟨rfl, -⟩ := hn
    exact h.drain _ _
  · rename_i r request outcome hi
    obtain ⟨rfl, -⟩ := hn
    exact h.admitted hi outcome _
  · obtain ⟨rfl, -⟩ := hn
    exact h.awaitAdmission _ _
  · rename_i r request response duplicate hi
    obtain ⟨rfl, -⟩ := hn
    refine h.step h.table (fun j r q _ hown => h.held j r q hown) ?_
    intro x hx
    cases duplicate with
    | true => simp [Phase.token] at hx
    | false =>
      simp only [Phase.token, Option.some.injEq, Prod.mk.injEq, and_true] at hx
      subst hx
      have hown : s.Owns i r (.answered r request response false) := ⟨hi, rfl⟩
      obtain ⟨hheld, hmatch⟩ := h.held i r _ hown
      exact ⟨hheld, hmatch, fun j q hj hq => hj (h.unique j i r q _ hq hown)⟩
  · rename_i r request response duplicate hi
    obtain ⟨rfl, -⟩ := hn
    cases duplicate with
    | true => exact h.rest s.session.lifecycle (by simp [Phase.token])
    | false => exact h.disconnect hi
  · rename_i r outcome hi
    obtain ⟨rfl, -⟩ := hn
    exact h.abandoned hi outcome _
  · obtain ⟨rfl, -⟩ := hn
    exact h.awaitCompletion _ _
  · obtain ⟨rfl, -⟩ := hn
    exact h.completed _ _ _ _
  · obtain ⟨rfl, -⟩ := hn
    exact h.awaitDrain s.session.lifecycle _ _

theorem Owned.start (h : Start s) : s.Owned := by
  obtain ⟨abandon, start, rfl⟩ := h
  refine ⟨?_, ?_, ?_⟩ <;> simp [Owns]

theorem delivered_next {a : ℕ × Action} (hn : s.next a = some (t, p)) {request : Request} {response : Fields}
    {duplicate : Bool} (hi : s.requests.get? i = some (.delivered r request response duplicate)) :
    t.requests.get? i = some (.delivered r request response duplicate) := by
  obtain ⟨j, a⟩ := a
  have hji : j ≠ i := by
    rintro rfl
    unfold State.next at hn
    simp [hi] at hn
  unfold State.next at hn
  dsimp only at hn
  split at hn <;> simp only [put, Option.some.injEq, Prod.mk.injEq, reduceCtorEq] at hn
  all_goals
    obtain ⟨rfl, -⟩ := hn
    exact (PyDict.get?_set_ne _ _ hji.symm).trans hi

end State

def Phase.asked : Phase → Option Request
  | .admitCall _ q | .awaitAdmission _ q | .answered _ q _ _ | .delivered _ q _ _ => some q
  | _ => none

namespace State

variable {s t : State} {i : ℕ} {p : Phase} {r : ℕ}

theorem asked_awaitAdmission (s : Session) (r : ℕ) (request : Request) :
    ∀ q, (s.awaitAdmission r request).2.asked = some q → q = request := by
  intro q hq
  unfold Session.awaitAdmission at hq
  split_ifs at hq
  · exact (Option.some.inj hq).symm
  · split at hq
    · cases hq
    · exact (Option.some.inj hq).symm

theorem asked_awaitCompletion (s : Session) (r : ℕ) (request : Request) :
    (s.awaitCompletion r request).2.asked = none := by
  unfold Session.awaitCompletion
  split_ifs
  · rfl
  · split <;> rfl

theorem asked_awaitDrain (s : Session) (timed expired : Bool) : (s.awaitDrain timed expired).2.asked = none := by
  unfold Session.awaitDrain
  split_ifs <;> rfl

theorem asked_next {a : ℕ × Action} (hn : s.next a = some (t, p)) :
    t.requests = s.requests.set a.1 p ∧ ∀ q, p.asked = some q →
      a.2 = .admission q ∧ s.requests.get? a.1 = none ∨
        ∃ p', s.requests.get? a.1 = some p' ∧ p'.asked = some q := by
  obtain ⟨i, a⟩ := a
  unfold State.next at hn
  dsimp only at hn ⊢
  split at hn <;> simp only [put, Option.some.injEq, Prod.mk.injEq, reduceCtorEq] at hn
  · rename_i request hi
    obtain ⟨rfl, rfl⟩ := hn
    refine ⟨rfl, fun q hq => .inl ⟨?_, hi⟩⟩
    unfold Session.admission at hq
    split_ifs at hq
    · cases hq
    · split at hq
      · rw [Option.some.inj hq]
      · split_ifs at hq
        · cases hq
        · rw [asked_awaitAdmission _ _ _ q hq]
  · obtain ⟨rfl, rfl⟩ := hn
    refine ⟨rfl, fun q hq => ?_⟩
    unfold Session.executionStart at hq
    split at hq
    · cases hq
    · split at hq
      · cases hq
      · dsimp only at hq
        split_ifs at hq
        · cases hq
        · cases hq
        · cases hq
        · cases hq
        · split at hq <;> cases hq
  · obtain ⟨rfl, rfl⟩ := hn
    refine ⟨rfl, fun q hq => ?_⟩
    unfold Session.completion at hq
    split at hq
    · cases hq
    · split_ifs at hq
      · cases hq
      · cases hq
      · rw [asked_awaitCompletion] at hq
        cases hq
  · obtain ⟨rfl, rfl⟩ := hn
    refine ⟨rfl, fun q hq => ?_⟩
    unfold Session.drain at hq
    split_ifs at hq
    · cases hq
    · rw [asked_awaitDrain] at hq
      cases hq
  · rename_i r request outcome hi
    obtain ⟨rfl, rfl⟩ := hn
    refine ⟨rfl, fun q hq => .inr ⟨_, hi, ?_⟩⟩
    unfold Session.admitted at hq
    split at hq
    · cases hq
    · exact hq
  · rename_i r request expired hi
    obtain ⟨rfl, rfl⟩ := hn
    refine ⟨rfl, fun q hq => .inr ⟨_, hi, ?_⟩⟩
    rw [asked_awaitAdmission _ _ _ q hq]
    rfl
  · rename_i r request response duplicate hi
    obtain ⟨rfl, rfl⟩ := hn
    exact ⟨rfl, fun q hq => .inr ⟨_, hi, hq⟩⟩
  · rename_i r request response duplicate hi
    obtain ⟨rfl, rfl⟩ := hn
    refine ⟨rfl, fun q hq => ?_⟩
    cases duplicate with
    | true => cases hq
    | false =>
      simp only [Session.abandonAdmission, Bool.false_eq_true, if_false] at hq
      split at hq
      · cases hq
      · split_ifs at hq <;> cases hq
  · obtain ⟨rfl, rfl⟩ := hn
    refine ⟨rfl, fun q hq => ?_⟩
    unfold Session.abandoned at hq
    split at hq <;> cases hq
  · obtain ⟨rfl, rfl⟩ := hn
    refine ⟨rfl, fun q hq => ?_⟩
    rw [asked_awaitCompletion] at hq
    cases hq
  · rename_i r request outcome hi
    obtain ⟨rfl, rfl⟩ := hn
    refine ⟨rfl, fun q hq => ?_⟩
    unfold Session.completed at hq
    split at hq <;> cases hq
  · obtain ⟨rfl, rfl⟩ := hn
    refine ⟨rfl, fun q hq => ?_⟩
    rw [asked_awaitDrain] at hq
    cases hq

end State

end ClawBox.Control
