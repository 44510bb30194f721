import Mathlib.Order.Basic
import Mathlib.Data.List.Basic
import Mathlib.Algebra.BigOperators.Group.List.Basic
import Mathlib.Tactic.Ring
import Mathlib.Tactic.SplitIfs

namespace Transition

structure System (σ α : Type*) where
  start : σ → Prop
  step : σ → α → σ → Prop

variable {σ α : Type*}

inductive Run (T : System σ α) (s : σ) : List α → σ → Prop
  | nil : Run T s [] s
  | snoc {t u : σ} {as : List α} {a : α} : Run T s as t → T.step t a u → Run T s (as ++ [a]) u

def Reachable (T : System σ α) (s : σ) : Prop := ∃ s₀ as, T.start s₀ ∧ Run T s₀ as s

def System.restrict (T : System σ α) (ok : σ → α → Prop) : System σ α :=
  ⟨T.start, fun s a t => T.step s a t ∧ ok s a⟩

theorem Reachable.start {T : System σ α} {s : σ} (h : T.start s) : Reachable T s :=
  ⟨s, [], h, .nil⟩

theorem Reachable.step {T : System σ α} {s t : σ} {a : α} (h : Reachable T s) (hs : T.step s a t) :
    Reachable T t := by
  obtain ⟨s₀, as, h₀, hr⟩ := h
  exact ⟨s₀, as ++ [a], h₀, .snoc hr hs⟩

theorem Reachable.run {T : System σ α} {s t : σ} {as : List α} (h : Reachable T s) (hr : Run T s as t) :
    Reachable T t := by
  induction hr with
  | nil => exact h
  | snoc _ hs ih => exact ih.step hs

theorem Run.invariant {T : System σ α} {I : σ → Prop}
    (hstep : ∀ s a t, I s → T.step s a t → I t) {s t : σ} {as : List α} (hr : Run T s as t) (hs : I s) : I t := by
  induction hr with
  | nil => exact hs
  | snoc _ ha ih => exact hstep _ _ _ ih ha

theorem Reachable.invariant {T : System σ α} {I : σ → Prop} (hstart : ∀ s, T.start s → I s)
    (hstep : ∀ s a t, I s → T.step s a t → I t) {s : σ} (h : Reachable T s) : I s := by
  obtain ⟨s₀, as, h₀, hr⟩ := h
  exact hr.invariant hstep (hstart s₀ h₀)

/-- After `before` came the label `x`, and none since then meets `Q`. -/
def Since (Q : α → Prop) (before : List α) (x : α) (as : List α) : Prop :=
  ∃ after, as = before ++ x :: after ∧ ∀ y ∈ after, ¬ Q y

theorem Since.last {Q : α → Prop} {before : List α} {x : α} : Since Q before x (before ++ [x]) := ⟨[], rfl, by simp⟩

theorem Since.snoc {Q : α → Prop} {before as : List α} {x y : α} (h : Since Q before x as) (hy : ¬ Q y) :
    Since Q before x (as ++ [y]) := by
  obtain ⟨after, rfl, hafter⟩ := h
  refine ⟨after ++ [y], by simp, ?_⟩
  intro z hz
  rcases List.mem_append.mp hz with hz | hz
  · exact hafter z hz
  · rw [List.mem_singleton.mp hz]
    exact hy

theorem Run.append {T : System σ α} {s t u : σ} {as bs : List α} (hr : Run T s as t) (hr' : Run T t bs u) :
    Run T s (as ++ bs) u := by
  induction hr' with
  | nil => simpa using hr
  | snoc _ hs ih =>
    rw [← List.append_assoc]
    exact .snoc ih hs

theorem Run.of_restrict {T : System σ α} {ok : σ → α → Prop} {s t : σ} {as : List α}
    (hr : Run (T.restrict ok) s as t) : Run T s as t := by
  induction hr with
  | nil => exact .nil
  | snoc _ ha ih => exact .snoc ih ha.1

theorem Run.restrict_labels {T : System σ α} {ok : α → Prop} {s t : σ} {as : List α} (hr : Run T s as t)
    (hok : ∀ a ∈ as, ok a) : Run (T.restrict fun _ a => ok a) s as t := by
  induction hr with
  | nil => exact .nil
  | snoc _ ha ih =>
    apply Run.snoc
    · apply ih
      intro b hb
      exact hok b (List.mem_append_left _ hb)
    · exact ⟨ha, hok _ (by simp)⟩

theorem Reachable.of_restrict {T : System σ α} {ok : σ → α → Prop} {s : σ}
    (h : Reachable (T.restrict ok) s) : Reachable T s := by
  obtain ⟨s₀, as, h₀, hr⟩ := h
  exact ⟨s₀, as, h₀, hr.of_restrict⟩

theorem Run.potential {T : System σ α} {I : σ → Prop} (Φ : σ → ℕ) (cost : α → ℕ)
    (hI : ∀ s a t, I s → T.step s a t → I t)
    (hΦ : ∀ s a t, I s → T.step s a t → cost a + Φ t ≤ Φ s)
    {s t : σ} {as : List α} (hr : Run T s as t) (hs : I s) : (as.map cost).sum + Φ t ≤ Φ s := by
  induction hr with
  | nil => simp
  | @snoc t u as a hr ha ih =>
    have ht : I t := hr.invariant hI hs
    have hpay := hΦ t a u ht ha
    simp only [List.map_append, List.map_cons, List.map_nil, List.sum_append, List.sum_cons,
      List.sum_nil, add_zero]
    omega

theorem Run.labels {T : System σ α} {I : σ → σ → Prop} {P : σ → α → Prop}
    (hrefl : ∀ s, I s s) (hI : ∀ s t a u, I s t → T.step t a u → I s u)
    (hP : ∀ s t a u, I s t → T.step t a u → P s a) {s t : σ} {as : List α} (hr : Run T s as t) :
    I s t ∧ ∀ a ∈ as, P s a := by
  induction hr with
  | nil => exact ⟨hrefl s, by simp⟩
  | @snoc t u as a hr ha ih =>
    refine ⟨hI s t a u ih.1 ha, ?_⟩
    intro b hb
    rcases List.mem_append.mp hb with hb | hb
    · exact ih.2 b hb
    · rw [List.mem_singleton.mp hb]
      exact hP s t a u ih.1 ha

def exec {α ε : Type*} (next : σ → α → Option (σ × ε)) : σ → List α → Option (σ × List (α × ε))
  | s, [] => some (s, [])
  | s, a :: as =>
    match next s a with
    | none => none
    | some (t, e) => (exec next t as).map (fun r => (r.1, (a, e) :: r.2))

def System.ofNext {ε : Type*} (start : σ → Prop) (next : σ → α → Option (σ × ε)) : System σ (α × ε) :=
  ⟨start, fun s l t => next s l.1 = some (t, l.2)⟩

theorem Run.cons {T : System σ α} {s t u : σ} {a : α} {as : List α} (ha : T.step s a t) (hr : Run T t as u) :
    Run T s (a :: as) u := by
  induction hr with
  | nil => exact .snoc .nil ha
  | snoc _ hb ih => exact .snoc ih hb

theorem run_of_exec {ε : Type*} {start : σ → Prop} {next : σ → α → Option (σ × ε)} {s t : σ}
    {as : List α} {ls : List (α × ε)} (h : exec next s as = some (t, ls)) :
    Run (System.ofNext start next) s ls t := by
  induction as generalizing s ls with
  | nil =>
    simp only [exec, Option.some.injEq, Prod.mk.injEq] at h
    obtain ⟨rfl, rfl⟩ := h
    exact .nil
  | cons a as ih =>
    simp only [exec] at h
    cases hn : next s a with
    | none => simp [hn] at h
    | some r =>
      obtain ⟨u, e⟩ := r
      simp only [hn] at h
      cases hx : exec next u as with
      | none => simp [hx] at h
      | some q =>
        obtain ⟨v, ms⟩ := q
        simp only [hx, Option.map_some, Option.some.injEq, Prod.mk.injEq] at h
        obtain ⟨rfl, rfl⟩ := h
        exact Run.cons hn (ih hx)

theorem Run.mono {T T' : System σ α} (h : ∀ s a t, T.step s a t → T'.step s a t) {s t : σ} {as : List α}
    (hr : Run T s as t) : Run T' s as t := by
  induction hr with
  | nil => exact .nil
  | snoc _ ha ih => exact .snoc ih (h _ _ _ ha)

theorem run_of_foldlM {start : σ → Prop} {next : σ → α → Option σ} {ok : σ → α → Prop} [∀ s a, Decidable (ok s a)]
    {s t : σ} {as : List α} (h : as.foldlM (fun s a => if ok s a then next s a else none) s = some t) :
    Run ((⟨start, fun s a t => next s a = some t⟩ : System σ α).restrict ok) s as t := by
  induction as generalizing s with
  | nil =>
    cases h
    exact .nil
  | cons a as ih =>
    obtain ⟨u, hu, h⟩ := Option.bind_eq_some_iff.1 h
    dsimp only at hu
    split_ifs at hu with hok
    exact Run.cons ⟨hu, hok⟩ (ih h)

theorem Run.map {τ : Type*} {T : System σ α} {T' : System τ α} {I : σ → Prop} (f : σ → τ)
    (hI : ∀ s a t, I s → T.step s a t → I t) (hf : ∀ s a t, I s → T.step s a t → T'.step (f s) a (f t))
    {s t : σ} {as : List α} (hr : Run T s as t) (hs : I s) : Run T' (f s) as (f t) := by
  induction hr with
  | nil => exact .nil
  | snoc hr ha ih => exact .snoc ih (hf _ _ _ (hr.invariant hI hs) ha)

def trace {ε : Type*} (next : σ → α → Option (σ × ε)) (s : σ) (as : List α) : σ × List (α × ε) :=
  (exec next s as).getD (s, [])

theorem run_trace {ε : Type*} (start : σ → Prop) (next : σ → α → Option (σ × ε)) (s : σ) (as : List α) :
    Run (System.ofNext start next) s (trace next s as).2 (trace next s as).1 := by
  unfold trace
  cases h : exec next s as with
  | none => exact .nil
  | some r => exact run_of_exec h

def guarded {ε : Type*} (ok : σ → α → Bool) (next : σ → α → Option (σ × ε)) (s : σ) (a : α) : Option (σ × ε) :=
  if ok s a then next s a else none

theorem run_guarded {ε : Type*} (start : σ → Prop) (next : σ → α → Option (σ × ε)) (ok : σ → α → Bool) (s : σ)
    (as : List α) :
    Run ((System.ofNext start next).restrict (fun s l => ok s l.1)) s (trace (guarded ok next) s as).2
      (trace (guarded ok next) s as).1 := by
  refine (run_trace start (guarded ok next) s as).mono ?_
  intro s l t h
  simp only [System.ofNext, guarded] at h
  split_ifs at h with hok
  exact ⟨h, hok⟩

theorem Reachable.trace {ε : Type*} {start : σ → Prop} {next : σ → α → Option (σ × ε)} {s : σ}
    (h : Reachable (System.ofNext start next) s) (as : List α) :
    Reachable (System.ofNext start next) (trace next s as).1 :=
  h.run (run_trace start next s as)

end Transition
