import ClawBox.Coalescing.Executor
import Mathlib.Data.List.Perm.Basic

namespace ClawBox.Coalescing

open Transition

namespace State

variable {κ ω ε : Type*} [DecidableEq κ] [DecidableEq ε] {s t : State κ ω ε} {r : Runner κ ε}

def owners (s : State κ ω ε) : List κ := s.queue.map Prod.snd ++ s.running.map Runner.key

def tickets (s : State κ ω ε) : List ℕ := s.executions.map fun x => x.2.2

def Ran (s : State κ ω ε) (k : κ) : Prop := ∃ r ∈ s.running, r.key = k ∧ r.phase ≠ .entering

def Served (s : State κ ω ε) (k : κ) (n : ℕ) : Prop :=
  ∃ m c, n ≤ m ∧ s.submissions[m]? = some (k, c) ∧ (k, c, m) ∈ s.executions

structure Sound (s : State κ ω ε) : Prop where
  workers : 0 < s.workers
  alone : s.owners.Nodup
  kept : ∀ k ∈ s.owners, ∃ e, s.coalesced.get? k = some e
  owned : s.shutdown = false → ∀ k e, s.coalesced.get? k = some e → k ∈ s.owners
  latest : ∀ k e, s.coalesced.get? k = some e → s.submissions[e.ticket]? = some (k, e.operation) ∧
    ∀ n c, s.submissions[n]? = some (k, c) → n ≤ e.ticket
  log : ∀ k c m, (k, c, m) ∈ s.executions → s.submissions[m]? = some (k, c)
  once : s.tickets.Nodup
  ran : ∀ k e, s.coalesced.get? k = some e → (e.ticket ∈ s.tickets ↔ e.dirty = false ∧ s.Ran k)
  served : s.shutdown = false → ∀ n k c, s.submissions[n]? = some (k, c) → s.coalesced.get? k = none → s.Served k n
  executed : s.executedCount = s.executions.length
  submitted : s.submittedCount = s.submissions.length
  accepted : s.shutdown = false → s.submittedCount = s.coalescedCount + s.futures ∧
    s.futures = s.started + s.queue.length

omit [DecidableEq ε] in
theorem Sound.start (h : Start s) : s.Sound := by
  obtain ⟨n, rfl⟩ := h
  constructor <;> simp [owners, tickets]

omit [DecidableEq ε] [DecidableEq κ] in
theorem ticket_lt (h : ∀ k c m, (k, c, m) ∈ s.executions → s.submissions[m]? = some (k, c)) {m : ℕ}
    (hm : m ∈ s.tickets) : m < s.submissions.length := by
  obtain ⟨⟨k, c, m⟩, hx, rfl⟩ := List.mem_map.mp hm
  exact (List.getElem?_eq_some_iff.mp (h k c m hx)).1

omit [DecidableEq ε] in
theorem Sound.fresh (h : s.Sound) : s.submissions.length ∉ s.tickets := by
  intro hm
  exact Nat.lt_irrefl _ (ticket_lt h.log hm)

theorem Sound.others (h : s.Sound) (hr : r ∈ s.running) {x : Runner κ ε} :
    x ∈ s.running.erase r ↔ x ∈ s.running ∧ x.key ≠ r.key := by
  have hkeys : (s.running.map Runner.key).Nodup := h.alone.of_append_right
  rw [hkeys.of_map.mem_erase_iff]
  constructor
  · rintro ⟨hne, hx⟩
    exact ⟨hx, fun hk => hne (List.inj_on_of_nodup_map hkeys hx hr hk)⟩
  · rintro ⟨hx, hk⟩
    exact ⟨fun he => hk (congrArg Runner.key he), hx⟩

omit [DecidableEq ε] in
theorem Sound.ran_key (h : s.Sound) (hr : r ∈ s.running) : s.Ran r.key ↔ r.phase ≠ .entering := by
  constructor
  · rintro ⟨x, hx, hk, hp⟩
    rwa [← List.inj_on_of_nodup_map h.alone.of_append_right hx hr hk]
  · exact fun hp => ⟨r, hr, rfl, hp⟩

theorem Sound.ran_become (h : s.Sound) (hr : r ∈ s.running) (p : Phase ε) (k : κ) :
    (s.become r p).Ran k ↔ if k = r.key then p ≠ .entering else s.Ran k := by
  simp only [Ran, become, List.mem_cons, exists_eq_or_imp, h.others hr]
  split_ifs with hk
  · subst hk
    constructor
    · rintro (⟨-, hp⟩ | ⟨x, ⟨-, hne⟩, hk, -⟩)
      · exact hp
      · exact absurd hk hne
    · exact fun hp => .inl ⟨rfl, hp⟩
  · constructor
    · rintro (⟨he, -⟩ | ⟨x, ⟨hx, -⟩, hxk, hp⟩)
      · exact absurd he.symm hk
      · exact ⟨x, hx, hxk, hp⟩
    · rintro ⟨x, hx, rfl, hp⟩
      exact .inr ⟨x, ⟨hx, hk⟩, rfl, hp⟩

theorem Sound.ran_leave (h : s.Sound) (hr : r ∈ s.running) {k : κ} (hk : k ≠ r.key) : (s.leave r).Ran k ↔ s.Ran k := by
  simp only [Ran, leave, h.others hr]
  constructor
  · rintro ⟨x, ⟨hx, -⟩, hxk, hp⟩
    exact ⟨x, hx, hxk, hp⟩
  · rintro ⟨x, hx, rfl, hp⟩
    exact ⟨x, ⟨hx, hk⟩, rfl, hp⟩

theorem owners_become (hr : r ∈ s.running) (p : Phase ε) : (s.become r p).owners.Perm s.owners :=
  (((List.perm_cons_erase hr).map Runner.key).symm).append_left _

theorem owners_leave (hr : r ∈ s.running) : s.owners.Perm (r.key :: (s.leave r).owners) :=
  (((List.perm_cons_erase hr).map Runner.key).append_left _).trans List.perm_middle

omit [DecidableEq ε] in
theorem submitCoalesced_submissions (k : κ) (c : ω) :
    (s.submitCoalesced k c).1.submissions = s.submissions ++ [(k, c)] := by
  unfold submitCoalesced
  split
  · rfl
  · split_ifs <;> rfl

omit [DecidableEq ε] [DecidableEq κ] in
theorem submitted_append {k x : κ} {c d : ω} {n : ℕ} (h : (s.submissions ++ [(k, c)])[n]? = some (x, d)) :
    s.submissions[n]? = some (x, d) ∨ n = s.submissions.length ∧ x = k ∧ d = c := by
  rw [List.getElem?_append] at h
  split_ifs at h with hn
  · exact .inl h
  · obtain ⟨hlt, he⟩ := List.getElem?_eq_some_iff.mp h
    have hz : n - s.submissions.length = 0 := by simpa using hlt
    simp only [hz, List.getElem_cons_zero, Prod.mk.injEq] at he
    exact .inr ⟨by omega, he.1.symm, he.2.symm⟩

omit [DecidableEq ε] [DecidableEq κ] in
theorem submitted_kept {k x : κ} {c d : ω} {n : ℕ} (h : s.submissions[n]? = some (x, d)) :
    (s.submissions ++ [(k, c)])[n]? = some (x, d) := by
  rw [List.getElem?_append_left (List.getElem?_eq_some_iff.mp h).1, h]

omit [DecidableEq κ] [DecidableEq ε] in
theorem Served.later {k : κ} {n : ℕ} (h : s.Served k n) (hsub : ∀ {n : ℕ} {x : κ} {c : ω},
    s.submissions[n]? = some (x, c) → t.submissions[n]? = some (x, c)) (hexec : ∀ x ∈ s.executions, x ∈ t.executions) :
    t.Served k n := by
  obtain ⟨m, c, hle, hm, hx⟩ := h
  exact ⟨m, c, hle, hsub hm, hexec _ hx⟩

omit [DecidableEq ε] in
theorem Sound.write (h : s.Sound) {k : κ} {c : ω} {e : Entry ω} (hop : e.operation = c)
    (hticket : e.ticket = s.submissions.length) (hsub : t.submissions = s.submissions ++ [(k, c)])
    (hco : t.coalesced = s.coalesced.set k e) {x : κ} {d : Entry ω} (hd : t.coalesced.get? x = some d) :
    (t.submissions[d.ticket]? = some (x, d.operation) ∧ ∀ n c, t.submissions[n]? = some (x, c) → n ≤ d.ticket) ∧
      (x = k ∧ d = e ∨ x ≠ k ∧ s.coalesced.get? x = some d) := by
  rw [hco, PyDict.get?_set] at hd
  rw [hsub]
  split_ifs at hd with hx
  · cases hd
    subst hx
    refine ⟨⟨by simp [hticket, hop], ?_⟩, .inl ⟨rfl, rfl⟩⟩
    intro n c hn
    have hlt := (List.getElem?_eq_some_iff.mp hn).1
    rw [List.length_append, List.length_singleton] at hlt
    omega
  · obtain ⟨hm, hlast⟩ := h.latest x d hd
    refine ⟨⟨submitted_kept hm, ?_⟩, .inr ⟨hx, hd⟩⟩
    intro n c hn
    rcases submitted_append hn with hn | ⟨-, he, -⟩
    · exact hlast n c hn
    · exact absurd he hx

omit [DecidableEq ε] in
theorem Sound.submitCoalesced (h : s.Sound) (k : κ) (c : ω) : (s.submitCoalesced k c).1.Sound := by
  have hlog : ∀ x d m, (x, d, m) ∈ s.executions → (s.submissions ++ [(k, c)])[m]? = some (x, d) :=
    fun x d m hx => submitted_kept (h.log x d m hx)
  have hserved : ∀ {n x d} {e : Entry ω}, (s.submissions ++ [(k, c)])[n]? = some (x, d) →
      (s.coalesced.set k e).get? x = none → s.shutdown = false → s.Served x n := by
    intro n x d e hn hx hopen
    rw [PyDict.get?_set] at hx
    split_ifs at hx with hk
    rcases submitted_append hn with hn | ⟨-, he, -⟩
    · exact h.served hopen n x d hn hx
    · exact absurd he hk
  unfold State.submitCoalesced
  cases he : s.coalesced.get? k with
  | some e =>
    dsimp only
    refine ⟨h.workers, h.alone, ?_, ?_, fun x d hd => (h.write rfl rfl rfl rfl hd).1, hlog, h.once, ?_, ?_,
      h.executed, ?_, ?_⟩
    · intro x hx
      obtain ⟨d, hd⟩ := h.kept x hx
      by_cases hk : x = k
      · exact ⟨_, by rw [hk, PyDict.get?_set_self]⟩
      · exact ⟨d, by rw [PyDict.get?_set_ne _ _ hk, hd]⟩
    · intro hopen x d hd
      rcases (h.write rfl rfl rfl rfl hd).2 with ⟨rfl, -⟩ | ⟨-, hd⟩
      · exact h.owned hopen x e he
      · exact h.owned hopen x d hd
    · intro x d hd
      rcases (h.write rfl rfl rfl rfl hd).2 with ⟨rfl, rfl⟩ | ⟨-, hd⟩
      · exact iff_of_false h.fresh (by simp)
      · exact h.ran x d hd
    · intro hopen n x d hn hx
      exact (hserved hn hx hopen).later submitted_kept (fun _ => id)
    · simp [h.submitted]
    · intro hopen
      obtain ⟨ha, hb⟩ := h.accepted hopen
      exact ⟨by dsimp only; omega, hb⟩
  | none =>
    have hnew : k ∉ s.owners := by
      intro hk
      obtain ⟨d, hd⟩ := h.kept k hk
      rw [he] at hd
      cases hd
    have hran : ¬s.Ran k := by
      rintro ⟨x, hx, rfl, -⟩
      exact hnew (List.mem_append_right _ (List.mem_map_of_mem hx))
    dsimp only
    split_ifs with hs
    · refine ⟨h.workers, h.alone, ?_, ?_, fun x d hd => (h.write rfl rfl rfl rfl hd).1, hlog, h.once, ?_, ?_,
        h.executed, ?_, ?_⟩
      · intro x hx
        obtain ⟨d, hd⟩ := h.kept x hx
        have hk : x ≠ k := by
          rintro rfl
          exact hnew hx
        exact ⟨d, by rw [PyDict.get?_set_ne _ _ hk, hd]⟩
      · exact fun hopen => (Bool.false_ne_true (hopen.symm.trans hs)).elim
      · intro x d hd
        rcases (h.write rfl rfl rfl rfl hd).2 with ⟨rfl, rfl⟩ | ⟨-, hd⟩
        · exact iff_of_false h.fresh (fun hr => hran hr.2)
        · exact h.ran x d hd
      · exact fun hopen => (Bool.false_ne_true (hopen.symm.trans hs)).elim
      · simp [h.submitted]
      · exact fun hopen => (Bool.false_ne_true (hopen.symm.trans hs)).elim
    · have hperm : ((s.queue ++ [(s.futures, k)]).map Prod.snd ++ s.running.map Runner.key).Perm (k :: s.owners) := by
        rw [List.map_append, List.append_assoc]
        exact List.perm_middle
      refine ⟨h.workers, ?_, ?_, ?_, fun x d hd => (h.write rfl rfl rfl rfl hd).1, hlog, h.once, ?_, ?_,
        h.executed, ?_, ?_⟩
      · exact hperm.nodup_iff.mpr (List.nodup_cons.mpr ⟨hnew, h.alone⟩)
      · intro x hx
        rcases List.mem_cons.mp (hperm.mem_iff.mp hx) with rfl | hold
        · exact ⟨_, PyDict.get?_set_self _ _ _⟩
        · obtain ⟨d, hd⟩ := h.kept x hold
          have hk : x ≠ k := by
            rintro rfl
            exact hnew hold
          exact ⟨d, by rw [PyDict.get?_set_ne _ _ hk, hd]⟩
      · intro hopen x d hd
        refine hperm.mem_iff.mpr ?_
        rcases (h.write rfl rfl rfl rfl hd).2 with ⟨rfl, -⟩ | ⟨-, hd⟩
        · exact List.mem_cons_self
        · exact List.mem_cons_of_mem _ (h.owned hopen x d hd)
      · intro x d hd
        rcases (h.write rfl rfl rfl rfl hd).2 with ⟨rfl, rfl⟩ | ⟨-, hd⟩
        · exact iff_of_false h.fresh (fun hr => hran hr.2)
        · exact h.ran x d hd
      · intro hopen n x d hn hx
        exact (hserved hn hx hopen).later submitted_kept (fun _ => id)
      · simp [h.submitted]
      · intro hopen
        obtain ⟨ha, hb⟩ := h.accepted hopen
        dsimp only
        rw [List.length_append, List.length_singleton]
        omega

omit [DecidableEq ε] in
theorem Sound.take (h : s.Sound) {future : ℕ} {k : κ} {rest : List (ℕ × κ)} (hq : s.queue = (future, k) :: rest) :
    ({ s with queue := rest, running := ⟨future, k, .entering⟩ :: s.running, started := s.started + 1 } :
      State κ ω ε).Sound := by
  have hperm : (rest.map Prod.snd ++ (k :: s.running.map Runner.key)).Perm s.owners := by
    rw [owners, hq]
    exact List.perm_middle
  refine ⟨h.workers, hperm.nodup_iff.mpr h.alone, fun x hx => h.kept x (hperm.mem_iff.mp hx),
    fun hopen x d hd => hperm.mem_iff.mpr (h.owned hopen x d hd), h.latest, h.log, h.once, ?_, ?_, h.executed,
    h.submitted, ?_⟩
  · intro x d hd
    refine (h.ran x d hd).trans (and_congr_right fun _ => ?_)
    simp [Ran]
  · exact fun hopen n x d hn hx => (h.served hopen n x d hn hx).later id (fun _ => id)
  · intro hopen
    obtain ⟨ha, hb⟩ := h.accepted hopen
    rw [hq, List.length_cons] at hb
    exact ⟨ha, by dsimp only; omega⟩

theorem Sound.become (h : s.Sound) (hr : r ∈ s.running) {p : Phase ε} (hp : r.phase ≠ .entering ∧ p ≠ .entering ∨
    ∃ e, s.coalesced.get? r.key = some e ∧ e.dirty = true) : (s.become r p).Sound := by
  have hperm := owners_become (s := s) hr p
  refine ⟨h.workers, hperm.nodup_iff.mpr h.alone, fun x hx => h.kept x (hperm.mem_iff.mp hx),
    fun hopen x d hd => hperm.mem_iff.mpr (h.owned hopen x d hd), h.latest, h.log, h.once, ?_, ?_, h.executed,
    h.submitted, h.accepted⟩
  · intro x d hd
    refine (h.ran x d hd).trans (and_congr_right fun hclean => ?_)
    rw [h.ran_become hr]
    split_ifs with hx
    · rcases hp with hp | ⟨e, he, hdirty⟩
      · rw [hx, h.ran_key hr]
        exact iff_of_true hp.1 hp.2
      · rw [← hx] at he
        cases he.symm.trans hd
        rw [hclean] at hdirty
        cases hdirty
    · rfl
  · exact fun hopen n x d hn hx => (h.served hopen n x d hn hx).later id (fun _ => id)

omit [DecidableEq ε] in
theorem Sound.entry (h : s.Sound) (hr : r ∈ s.running) : ∃ e, s.coalesced.get? r.key = some e :=
  h.kept r.key (List.mem_append_right _ (List.mem_map_of_mem hr))

theorem enter_eq {e : Entry ω} (he : s.coalesced.get? r.key = some e) :
    s.enter r = ({ s.become r .executing with
      coalesced := s.coalesced.set r.key { e with dirty := false }
      executedCount := s.executedCount + 1
      executions := s.executions ++ [(r.key, e.operation, e.ticket)] },
        some (.executing r.key e.operation e.ticket)) := by
  simp only [State.enter, he]

theorem Sound.enter (h : s.Sound) (hr : r ∈ s.running) (hp : r.phase = .entering) : (s.enter r).1.Sound := by
  obtain ⟨e, he⟩ := h.entry hr
  obtain ⟨hsub, hlast⟩ := h.latest r.key e he
  have hnot : e.ticket ∉ s.tickets := fun hm => (h.ran_key hr).mp ((h.ran r.key e he).mp hm).2 hp
  have hperm := owners_become (s := s) hr .executing
  have hget : ∀ {x d}, (s.coalesced.set r.key { e with dirty := false }).get? x = some d →
      x = r.key ∧ d = { e with dirty := false } ∨ x ≠ r.key ∧ s.coalesced.get? x = some d := by
    intro x d hd
    rw [PyDict.get?_set] at hd
    split_ifs at hd with hx
    · exact .inl ⟨hx, (Option.some.inj hd).symm⟩
    · exact .inr ⟨hx, hd⟩
  rw [enter_eq he]
  refine ⟨h.workers, hperm.nodup_iff.mpr h.alone, ?_, ?_, ?_, ?_, ?_, ?_, ?_, ?_, h.submitted, h.accepted⟩
  · intro x hx
    obtain ⟨d, hd⟩ := h.kept x (hperm.mem_iff.mp hx)
    by_cases hk : x = r.key
    · exact ⟨_, by rw [hk]; exact PyDict.get?_set_self _ _ _⟩
    · exact ⟨d, by rw [← hd]; exact PyDict.get?_set_ne _ _ hk⟩
  · intro hopen x d hd
    refine hperm.mem_iff.mpr ?_
    rcases hget hd with ⟨rfl, -⟩ | ⟨-, hd⟩
    · exact h.owned hopen _ e he
    · exact h.owned hopen x d hd
  · intro x d hd
    rcases hget hd with ⟨rfl, rfl⟩ | ⟨-, hd⟩
    · exact ⟨hsub, hlast⟩
    · exact h.latest x d hd
  · intro x c m hx
    rcases List.mem_append.mp hx with hx | hx
    · exact h.log x c m hx
    · cases List.mem_singleton.mp hx
      exact hsub
  · simp only [tickets, List.map_append, List.map_cons, List.map_nil]
    refine List.nodup_append.mpr ⟨h.once, List.nodup_singleton _, ?_⟩
    rintro m hm n hn rfl
    rw [List.mem_singleton.mp hn] at hm
    exact hnot hm
  · intro x d hd
    have hmem : ∀ m, m ∈ tickets (ω := ω) (ε := ε) { s.become r .executing with
        coalesced := s.coalesced.set r.key { e with dirty := false }
        executedCount := s.executedCount + 1
        executions := s.executions ++ [(r.key, e.operation, e.ticket)] } ↔ m ∈ s.tickets ∨ m = e.ticket := by
      simp [tickets, eq_comm]
    have hran := h.ran_become hr .executing x
    rcases hget hd with ⟨rfl, rfl⟩ | ⟨hne, hd⟩
    · refine iff_of_true ((hmem _).mpr (.inr rfl)) ⟨rfl, ?_⟩
      rw [if_pos rfl] at hran
      exact hran.mpr (by simp)
    · rw [hmem, h.ran x d hd]
      rw [if_neg hne] at hran
      have hother : d.ticket ≠ e.ticket := by
        intro heq
        have hd' := (h.latest x d hd).1
        rw [heq, hsub, Option.some.injEq, Prod.mk.injEq] at hd'
        exact hne hd'.1.symm
      simp only [hother, or_false]
      exact and_congr_right fun _ => hran.symm
  · intro hopen n x c hn hx
    have hk : x ≠ r.key := by
      rintro rfl
      exact absurd ((PyDict.get?_set_self _ _ _).symm.trans hx) (by simp)
    exact (h.served hopen n x c hn ((PyDict.get?_set_ne _ _ hk).symm.trans hx)).later id
      (fun _ => List.mem_append_left _)
  · simp [h.executed]

theorem Sound.settle (h : s.Sound) (hr : r ∈ s.running) (hp : r.phase = .settling) : (s.settle r).Sound := by
  obtain ⟨e, he⟩ := h.entry hr
  simp only [State.settle, he]
  split_ifs with hdirty
  · exact h.become hr (.inr ⟨e, he, hdirty⟩)
  · have hperm := owners_leave (s := s) hr
    have hnd := hperm.nodup_iff.mp h.alone
    rw [List.nodup_cons] at hnd
    have hget : ∀ {x d}, (s.coalesced.pop r.key).get? x = some d → x ≠ r.key ∧ s.coalesced.get? x = some d := by
      intro x d hd
      rw [PyDict.get?_pop] at hd
      split_ifs at hd with hx
      exact ⟨hx, hd⟩
    refine ⟨h.workers, hnd.2, ?_, ?_, fun x d hd => h.latest x d (hget hd).2, h.log, h.once, ?_, ?_, h.executed,
      h.submitted, h.accepted⟩
    · intro x hx
      obtain ⟨d, hd⟩ := h.kept x (hperm.mem_iff.mpr (List.mem_cons_of_mem _ hx))
      exact ⟨d, by rw [← hd]; exact PyDict.get?_pop_ne _ (fun hk => hnd.1 (hk ▸ hx))⟩
    · intro hopen x d hd
      obtain ⟨hne, hd⟩ := hget hd
      exact (List.mem_cons.mp (hperm.mem_iff.mp (h.owned hopen x d hd))).resolve_left hne
    · intro x d hd
      obtain ⟨hne, hd⟩ := hget hd
      exact (h.ran x d hd).trans (and_congr_right fun _ => (h.ran_leave hr hne).symm)
    · intro hopen n x c hn hx
      by_cases hk : x = r.key
      · have hticket := (h.ran r.key e he).mpr ⟨by simpa using hdirty, (h.ran_key hr).mpr (by simp [hp])⟩
        obtain ⟨⟨y, d, m⟩, hm, hm'⟩ := List.mem_map.mp hticket
        dsimp only at hm'
        obtain ⟨hsub, hlast⟩ := h.latest r.key e he
        have hy := h.log y d _ hm
        rw [hm', hsub, Option.some.injEq, Prod.mk.injEq] at hy
        obtain ⟨rfl, rfl⟩ := hy
        rw [hm', ← hk] at hm
        exact ⟨e.ticket, e.operation, hlast n c (hk ▸ hn), hk ▸ hsub, hm⟩
      · exact (h.served hopen n x c hn ((PyDict.get?_pop_ne _ hk).symm.trans hx)).later id (fun _ => id)

omit [DecidableEq ε] in
theorem Sound.close (h : s.Sound) (wait : Bool) :
    ({ s with shutdown := true, queue := if wait then s.queue else [] } : State κ ω ε).Sound := by
  have hsub : (((if wait then s.queue else []).map Prod.snd) ++ s.running.map Runner.key).Sublist s.owners := by
    cases wait
    · exact List.sublist_append_right _ _
    · exact .refl _
  exact ⟨h.workers, h.alone.sublist hsub, fun x hx => h.kept x (hsub.subset hx), by simp, h.latest, h.log, h.once,
    h.ran, by simp, h.executed, h.submitted, by simp⟩

theorem Sound.next (h : s.Sound) {a : Act κ ω ε} {e : Option (Event κ ω)} (hn : s.next a = some (t, e)) : t.Sound := by
  cases a with
  | submit k c =>
    cases hn
    exact h.submitCoalesced k c
  | take =>
    simp only [State.next] at hn
    split at hn
    · cases hn
    · rename_i future k rest hq
      split_ifs at hn
      cases hn
      exact h.take hq
  | enter r =>
    simp only [State.next, Option.ite_none_right_eq_some, Option.some.injEq] at hn
    have ht : (s.enter r).1 = t := congrArg Prod.fst hn.2
    exact ht ▸ h.enter hn.1.1 hn.1.2
  | finish r exc =>
    simp only [State.next, Option.ite_none_right_eq_some] at hn
    obtain ⟨⟨hr, hp⟩, hn⟩ := hn
    cases exc with
    | none =>
      cases hn
      exact h.become hr (.inl (by simp [hp]))
    | some exc =>
      cases hn
      exact h.become hr (.inl (by simp [hp]))
  | record r =>
    simp only [State.next, Option.ite_none_right_eq_some] at hn
    obtain ⟨hr, hn⟩ := hn
    split at hn
    · rename_i exc hp
      cases hn
      obtain ⟨h1, h2, h3, h4, h5, h6, h7, h8, h9, h10, h11, h12⟩ := h.become (p := .settling) hr (.inl (by simp [hp]))
      exact ⟨h1, h2, h3, h4, h5, h6, h7, h8, h9, h10, h11, h12⟩
    · cases hn
  | settle r =>
    simp only [State.next, Option.ite_none_right_eq_some] at hn
    obtain ⟨⟨hr, hp⟩, hn⟩ := hn
    cases hn
    exact h.settle hr hp
  | close wait =>
    cases hn
    exact h.close wait

theorem sound (h : Reachable system s) : s.Sound :=
  Reachable.invariant (I := Sound) (fun _ hs => .start hs) (fun _ _ _ hs hstep => hs.next hstep) h

def Owed (s : State κ ω ε) (k : κ) (n : ℕ) : Prop :=
  ∃ e, s.coalesced.get? k = some e ∧ n ≤ e.ticket ∧ s.submissions[e.ticket]? = some (k, e.operation) ∧
    (k ∈ s.queue.map Prod.snd ∨ ∃ r ∈ s.running, r.key = k ∧ (r.phase = .entering ∨ e.dirty = true))

omit [DecidableEq ε] in
theorem Sound.served_or_owed (h : s.Sound) (hopen : s.shutdown = false) {n : ℕ} {k : κ} {c : ω}
    (hn : s.submissions[n]? = some (k, c)) : s.Served k n ∨ s.Owed k n := by
  cases he : s.coalesced.get? k with
  | none => exact .inl (h.served hopen n k c hn he)
  | some e =>
    obtain ⟨hsub, hlast⟩ := h.latest k e he
    by_cases hm : e.ticket ∈ s.tickets
    · left
      obtain ⟨⟨y, d, m⟩, hx, hticket⟩ := List.mem_map.mp hm
      dsimp only at hticket
      have hy := h.log y d m hx
      rw [hticket, hsub, Option.some.injEq, Prod.mk.injEq] at hy
      obtain ⟨rfl, rfl⟩ := hy
      rw [hticket] at hx
      exact ⟨e.ticket, e.operation, hlast n c hn, hsub, hx⟩
    · right
      refine ⟨e, he, hlast n c hn, hsub, ?_⟩
      rcases List.mem_append.mp (h.owned hopen k e he) with hq | hk
      · exact .inl hq
      · obtain ⟨r, hr, rfl⟩ := List.mem_map.mp hk
        refine .inr ⟨r, hr, rfl, ?_⟩
        by_contra hno
        rw [not_or, Bool.not_eq_true] at hno
        exact hm ((h.ran r.key e he).mpr ⟨hno.2, (h.ran_key hr).mpr hno.1⟩)

end State

namespace Phase

variable {ε : Type*}

def left : Phase ε → ℕ
  | .entering => 1
  | .settling => 2
  | .raised _ => 3
  | .executing => 4

theorem left_pos (p : Phase ε) : 0 < p.left := by
  cases p <;> simp [left]

def work (dirty : Bool) : Phase ε → ℕ
  | .entering => 4
  | .executing => 3 + dirty.toNat * 4
  | .raised _ => 2 + dirty.toNat * 4
  | .settling => 1 + dirty.toNat * 4

end Phase

namespace Act

variable {κ ω ε : Type*} [DecidableEq κ]

def runs (k : κ) : Act κ ω ε → Bool
  | .enter r | .finish r _ | .record r | .settle r => r.key = k
  | _ => false

omit [DecidableEq κ] in
def worker : Act κ ω ε → Bool
  | .submit _ _ | .close _ => false
  | _ => true

end Act

namespace State

variable {κ ω ε : Type*} [DecidableEq κ] [DecidableEq ε] {s t : State κ ω ε} {r : Runner κ ε}

def Away (s : State κ ω ε) (k : κ) (d : ℕ) : Prop :=
  k ∈ s.queue.map Prod.snd ∧ d = 1 ∨ ∃ r ∈ s.running, r.key = k ∧ d = r.phase.left

omit [DecidableEq ε] in
theorem Sound.away_runner (h : s.Sound) (hr : r ∈ s.running) {d : ℕ} (hd : s.Away r.key d) : d = r.phase.left := by
  rcases hd with ⟨hq, -⟩ | ⟨x, hx, hk, rfl⟩
  · exact absurd rfl ((List.nodup_append.mp h.alone).2.2 _ hq _ (List.mem_map_of_mem hr))
  · rw [List.inj_on_of_nodup_map h.alone.of_append_right hx hr hk]

theorem away_erase {k : κ} {d : ℕ} (hd : s.Away k d) (hk : r.key ≠ k) {running : List (Runner κ ε)}
    (hrun : ∀ x ∈ s.running.erase r, x ∈ running) (hq : t.queue = s.queue) (ht : t.running = running) : t.Away k d := by
  rcases hd with ⟨hm, hd⟩ | ⟨x, hx, hxk, hd⟩
  · exact .inl ⟨hq ▸ hm, hd⟩
  · have hne : x ≠ r := by
      rintro rfl
      exact hk hxk
    exact .inr ⟨x, ht ▸ hrun x ((List.mem_erase_of_ne hne).mpr hx), hxk, hd⟩

theorem Sound.away_become (h : s.Sound) (hr : r ∈ s.running) {p : Phase ε} (hp : p.left + 1 ≤ r.phase.left) {k : κ}
    {d : ℕ} (hd : s.Away k d) (hq : t.queue = s.queue) (ht : t.running = (s.become r p).running) :
    ∃ d', t.Away k d' ∧ (decide (r.key = k)).toNat + d' ≤ d := by
  by_cases hk : r.key = k
  · subst hk
    refine ⟨p.left, .inr ⟨{ r with phase := p }, ?_, rfl, rfl⟩, ?_⟩
    · rw [ht]
      exact List.mem_cons_self
    · rw [h.away_runner hr hd, decide_eq_true rfl, Bool.toNat_true]
      omega
  · refine ⟨d, away_erase hd hk (fun x hx => List.mem_cons_of_mem _ hx) hq ht, ?_⟩
    rw [decide_eq_false hk, Bool.toNat_false, Nat.zero_add]

theorem Sound.away_next (h : s.Sound) {a : Act κ ω ε} {ev : Option (Event κ ω)} (hn : s.next a = some (t, ev))
    (hopen : t.shutdown = false) {n : ℕ} {k : κ} {c : ω} (hsub : s.submissions[n]? = some (k, c)) {d : ℕ}
    (hd : s.Away k d) : t.Served k n ∨ ∃ d', t.Away k d' ∧ (a.runs k).toNat + d' ≤ d := by
  cases a with
  | submit x y =>
    cases hn
    refine .inr ⟨d, ?_, by simp [Act.runs]⟩
    have hkeep : (s.submitCoalesced x y).1.running = s.running ∧
        ∀ k ∈ s.queue.map Prod.snd, k ∈ (s.submitCoalesced x y).1.queue.map Prod.snd := by
      unfold State.submitCoalesced
      split
      · exact ⟨rfl, fun _ => id⟩
      · split_ifs
        · exact ⟨rfl, fun _ => id⟩
        · exact ⟨rfl, fun k hk => by simpa using .inl (by simpa using hk)⟩
    exact hd.imp (fun hq => ⟨hkeep.2 k hq.1, hq.2⟩) (fun hr => by rwa [hkeep.1])
  | take =>
    simp only [State.next] at hn
    split at hn
    · cases hn
    · rename_i future x rest hq
      split_ifs at hn
      cases hn
      refine .inr ⟨d, ?_, by simp [Act.runs]⟩
      rcases hd with ⟨hm, rfl⟩ | ⟨r, hr, hk, hd⟩
      · rw [hq, List.map_cons] at hm
        rcases List.mem_cons.mp hm with rfl | hm
        · exact .inr ⟨_, List.mem_cons_self, rfl, rfl⟩
        · exact .inl ⟨hm, rfl⟩
      · exact .inr ⟨r, List.mem_cons_of_mem _ hr, hk, hd⟩
  | enter r =>
    simp only [State.next, Option.ite_none_right_eq_some, Option.some.injEq] at hn
    obtain ⟨⟨hr, hp⟩, hn⟩ := hn
    obtain ⟨e, he⟩ := h.entry hr
    rw [enter_eq he] at hn
    cases hn
    by_cases hk : r.key = k
    · subst hk
      obtain ⟨hlatest, hlast⟩ := h.latest r.key e he
      exact .inl ⟨e.ticket, e.operation, hlast n c hsub, hlatest, List.mem_append_right _ (List.mem_singleton_self _)⟩
    · refine .inr ⟨d, away_erase hd hk (fun x hx => List.mem_cons_of_mem _ hx) rfl rfl, ?_⟩
      rw [Act.runs, decide_eq_false hk, Bool.toNat_false, Nat.zero_add]
  | finish r exc =>
    simp only [State.next, Option.ite_none_right_eq_some] at hn
    obtain ⟨⟨hr, hp⟩, hn⟩ := hn
    right
    cases exc with
    | none =>
      cases hn
      exact h.away_become hr (p := .settling) (by simp [hp, Phase.left]) hd rfl rfl
    | some exc =>
      cases hn
      exact h.away_become hr (p := .raised exc) (by simp [hp, Phase.left]) hd rfl rfl
  | record r =>
    simp only [State.next, Option.ite_none_right_eq_some] at hn
    obtain ⟨hr, hn⟩ := hn
    right
    split at hn
    · rename_i exc hp
      cases hn
      exact h.away_become hr (p := .settling) (by simp [hp, Phase.left]) hd rfl rfl
    · cases hn
  | settle r =>
    simp only [State.next, Option.ite_none_right_eq_some] at hn
    obtain ⟨⟨hr, hp⟩, hn⟩ := hn
    cases hn
    have hsound := h.settle hr hp
    obtain ⟨e, he⟩ := h.entry hr
    simp only [State.settle, he] at hsound hopen ⊢
    split_ifs at hsound hopen ⊢ with hdirty
    · exact .inr (h.away_become hr (p := .entering) (by simp [hp, Phase.left]) hd rfl rfl)
    · by_cases hk : r.key = k
      · subst hk
        refine .inl ((hsound.served_or_owed hopen hsub).resolve_right ?_)
        rintro ⟨e', he', -⟩
        exact absurd ((PyDict.get?_pop_self _ _).symm.trans he') (by simp)
      · refine .inr ⟨d, away_erase hd hk (fun _ => id) rfl rfl, ?_⟩
        rw [Act.runs, decide_eq_false hk, Bool.toNat_false, Nat.zero_add]
  | close wait =>
    cases hn
    cases hopen

theorem next_keeps {a : Act κ ω ε} {ev : Option (Event κ ω)} (hn : s.next a = some (t, ev)) :
    (∀ {n : ℕ} {x : κ} {c : ω}, s.submissions[n]? = some (x, c) → t.submissions[n]? = some (x, c)) ∧
      (∀ x ∈ s.executions, x ∈ t.executions) ∧ (t.shutdown = false → s.shutdown = false) := by
  cases a with
  | submit x y =>
    cases hn
    refine ⟨fun hm => ?_, ?_⟩
    · rw [submitCoalesced_submissions]
      exact submitted_kept hm
    · unfold State.submitCoalesced
      split
      · exact ⟨fun _ => id, id⟩
      · split_ifs
        · exact ⟨fun _ => id, id⟩
        · exact ⟨fun _ => id, id⟩
  | take =>
    simp only [State.next] at hn
    split at hn
    · cases hn
    · split_ifs at hn
      cases hn
      exact ⟨id, fun _ => id, id⟩
  | enter r =>
    simp only [State.next, Option.ite_none_right_eq_some, Option.some.injEq] at hn
    obtain ⟨-, hn⟩ := hn
    unfold State.enter at hn
    split at hn
    · cases hn
      exact ⟨id, fun _ => id, id⟩
    · cases hn
      exact ⟨id, fun _ => List.mem_append_left _, id⟩
  | finish r exc =>
    simp only [State.next, Option.ite_none_right_eq_some] at hn
    obtain ⟨-, hn⟩ := hn
    cases exc with
    | none =>
      cases hn
      exact ⟨id, fun _ => id, id⟩
    | some exc =>
      cases hn
      exact ⟨id, fun _ => id, id⟩
  | record r =>
    simp only [State.next, Option.ite_none_right_eq_some] at hn
    obtain ⟨-, hn⟩ := hn
    split at hn
    · cases hn
      exact ⟨id, fun _ => id, id⟩
    · cases hn
  | settle r =>
    simp only [State.next, Option.ite_none_right_eq_some] at hn
    obtain ⟨-, hn⟩ := hn
    cases hn
    unfold State.settle
    split
    · exact ⟨id, fun _ => id, id⟩
    · split_ifs
      · exact ⟨id, fun _ => id, id⟩
      · exact ⟨id, fun _ => id, id⟩
  | close wait =>
    cases hn
    exact ⟨id, fun _ => id, by simp⟩

theorem Sound.prompt (h : s.Sound) {n : ℕ} {k : κ} {c : ω} (hsub : s.submissions[n]? = some (k, c))
    {as : List (Act κ ω ε × Option (Event κ ω))} (hr : Run system s as t) :
    t.shutdown = false → t.Served k n ∨ as.countP (fun l => l.1.runs k) < 4 := by
  have hrun : t.Sound ∧ t.submissions[n]? = some (k, c) ∧ (t.shutdown = false →
      t.Served k n ∨ ∃ d, t.Away k d ∧ 0 < d ∧ as.countP (fun l => l.1.runs k) + d ≤ 4) := by
    induction hr with
    | nil =>
      refine ⟨h, hsub, fun hopen => ?_⟩
      refine (h.served_or_owed hopen hsub).imp_right ?_
      rintro ⟨e, -, -, -, hq | ⟨r, hr, hk, -⟩⟩
      · exact ⟨1, .inl ⟨hq, rfl⟩, Nat.one_pos, by simp⟩
      · refine ⟨r.phase.left, .inr ⟨r, hr, hk, rfl⟩, Phase.left_pos _, ?_⟩
        cases r.phase <;> simp [Phase.left]
    | @snoc u v as a hr hstep ih =>
      obtain ⟨hu, husub, hcount⟩ := ih
      obtain ⟨hsubs, hexec, hshut⟩ := next_keeps hstep
      refine ⟨hu.next hstep, hsubs husub, fun hopen => ?_⟩
      rcases hcount (hshut hopen) with hserved | ⟨d, hd, -, hle⟩
      · exact .inl (hserved.later hsubs hexec)
      · refine (hu.away_next hstep hopen husub hd).imp_right ?_
        rintro ⟨d', hd', hle'⟩
        refine ⟨d', hd', ?_, ?_⟩
        · rcases hd' with ⟨-, rfl⟩ | ⟨r, -, -, rfl⟩
          · exact Nat.one_pos
          · exact Phase.left_pos _
        · rw [List.countP_append, List.countP_singleton]
          cases hk : a.1.runs k <;> simp only [hk, Bool.toNat_true, Bool.toNat_false] at hle' ⊢ <;> simp <;> omega
  intro hopen
  rcases hrun.2.2 hopen with hserved | ⟨d, -, hpos, hle⟩
  · exact .inl hserved
  · exact .inr (by omega)

def dirty (s : State κ ω ε) (k : κ) : Bool := ((s.coalesced.get? k).map Entry.dirty).getD false

def backlog (s : State κ ω ε) : ℕ := 5 * s.queue.length + (s.running.map fun r => r.phase.work (s.dirty r.key)).sum

theorem backlog_erase (hr : r ∈ s.running) (f : Runner κ ε → ℕ) :
    (s.running.map f).sum = f r + ((s.running.erase r).map f).sum := by
  rw [((List.perm_cons_erase hr).map f).sum_eq, List.map_cons, List.sum_cons]

theorem Sound.erased (h : s.Sound) (hr : r ∈ s.running) (hdirty : ∀ k ≠ r.key, t.dirty k = s.dirty k) :
    ((s.running.erase r).map fun x => x.phase.work (t.dirty x.key)) =
      (s.running.erase r).map fun x => x.phase.work (s.dirty x.key) := by
  refine List.map_congr_left fun x hx => ?_
  rw [hdirty x.key ((h.others hr).mp hx).2]

theorem Sound.backlog_become (h : s.Sound) (hr : r ∈ s.running) {p : Phase ε} (hq : t.queue = s.queue)
    (ht : t.running = (s.become r p).running) (hdirty : ∀ k ≠ r.key, t.dirty k = s.dirty k)
    (hp : 1 + p.work (t.dirty r.key) ≤ r.phase.work (s.dirty r.key)) : 1 + t.backlog ≤ s.backlog := by
  rw [backlog, backlog, hq, ht, backlog_erase hr, State.become, List.map_cons, List.sum_cons, h.erased hr hdirty]
  dsimp only
  omega

theorem Sound.backlog_next (h : s.Sound) {a : Act κ ω ε} {ev : Option (Event κ ω)} (ha : a.worker = true)
    (hn : s.next a = some (t, ev)) : 1 + t.backlog ≤ s.backlog := by
  cases a with
  | submit x y => cases ha
  | close wait => cases ha
  | take =>
    simp only [State.next] at hn
    split at hn
    · cases hn
    · rename_i future x rest hq
      split_ifs at hn
      cases hn
      simp only [backlog, hq, List.length_cons, List.map_cons, List.sum_cons, Phase.work]
      simp only [dirty]
      omega
  | enter r =>
    simp only [State.next, Option.ite_none_right_eq_some, Option.some.injEq] at hn
    obtain ⟨⟨hr, hp⟩, hn⟩ := hn
    obtain ⟨e, he⟩ := h.entry hr
    rw [enter_eq he] at hn
    cases hn
    refine h.backlog_become hr rfl rfl (fun k hk => ?_) ?_
    · simp only [dirty]
      rw [PyDict.get?_set_ne _ _ hk]
    · simp [dirty, hp, Phase.work]
  | finish r exc =>
    simp only [State.next, Option.ite_none_right_eq_some] at hn
    obtain ⟨⟨hr, hp⟩, hn⟩ := hn
    cases exc with
    | none =>
      cases hn
      refine h.backlog_become hr rfl rfl (fun _ _ => rfl) ?_
      simp only [State.become, State.dirty, hp, Phase.work]
      omega
    | some exc =>
      cases hn
      refine h.backlog_become hr rfl rfl (fun _ _ => rfl) ?_
      simp only [State.become, State.dirty, hp, Phase.work]
      omega
  | record r =>
    simp only [State.next, Option.ite_none_right_eq_some] at hn
    obtain ⟨hr, hn⟩ := hn
    split at hn
    · rename_i exc hp
      cases hn
      refine h.backlog_become hr rfl rfl (fun _ _ => rfl) ?_
      simp only [State.become, State.dirty, hp, Phase.work]
      omega
    · cases hn
  | settle r =>
    simp only [State.next, Option.ite_none_right_eq_some] at hn
    obtain ⟨⟨hr, hp⟩, hn⟩ := hn
    cases hn
    obtain ⟨e, he⟩ := h.entry hr
    simp only [State.settle, he]
    split_ifs with hdirty
    · refine h.backlog_become hr rfl rfl (fun _ _ => rfl) ?_
      simp [dirty, he, hdirty, hp, Phase.work]
    · have hpop : ∀ k ≠ r.key, dirty { s.leave r with coalesced := s.coalesced.pop r.key } k = s.dirty k := by
        intro k hk
        simp only [dirty]
        rw [PyDict.get?_pop_ne _ hk]
      have hwork : 1 ≤ r.phase.work (s.dirty r.key) := by
        rw [hp, Phase.work]
        omega
      have herased := congrArg List.sum (h.erased hr hpop)
      have hsum := backlog_erase hr fun x => x.phase.work (s.dirty x.key)
      simp only [backlog, leave] at herased hsum ⊢
      omega

theorem Sound.live (h : s.Sound) (hq : ¬s.Quiescent) : ∃ a t ev, a.worker = true ∧ s.next a = some (t, ev) := by
  cases hr : s.running with
  | nil =>
    cases hqueue : s.queue with
    | nil => exact absurd ⟨hqueue, hr⟩ hq
    | cons task rest =>
      have hw : s.running.length < s.workers := by
        rw [hr]
        exact h.workers
      obtain ⟨future, key⟩ := task
      refine ⟨.take,
        { s with queue := rest, running := ⟨future, key, .entering⟩ :: s.running, started := s.started + 1 },
        none, rfl, ?_⟩
      simp only [State.next, hqueue, hw, if_true]
  | cons r rest =>
    have hmem : r ∈ s.running := by
      rw [hr]
      exact List.mem_cons_self
    cases hp : r.phase with
    | entering => exact ⟨.enter r, _, _, rfl, if_pos ⟨hmem, hp⟩⟩
    | executing => exact ⟨.finish r none, _, _, rfl, if_pos ⟨hmem, hp⟩⟩
    | raised exc =>
      refine ⟨.record r, { s.become r .settling with failures := s.failures ++ [exc] }, none, rfl, ?_⟩
      simp only [State.next, hmem, if_true, hp]
    | settling => exact ⟨.settle r, _, _, rfl, if_pos ⟨hmem, hp⟩⟩

theorem Sound.drains (h : s.Sound) {as : List (Act κ ω ε × Option (Event κ ω))}
    (hr : Run (system.restrict fun _ l => l.1.worker = true) s as t) : as.length ≤ s.backlog := by
  have hpay := Run.potential (T := system.restrict fun _ l => l.1.worker = true) (I := Sound) backlog (fun _ => 1)
    (fun _ _ _ hu hstep => hu.next hstep.1) (fun _ _ _ hu hstep => hu.backlog_next hstep.2 hstep.1) hr h
  simp only [List.map_const', List.sum_replicate, nsmul_eq_mul, mul_one, Nat.cast_id] at hpay
  omega

omit [DecidableEq ε] in
theorem Sound.executed_le (h : s.Sound) : s.executedCount ≤ s.submittedCount := by
  have hle := (List.subperm_of_subset h.once fun m hm => List.mem_range.mpr (ticket_lt h.log hm)).length_le
  rw [List.length_range, tickets, List.length_map] at hle
  rw [h.executed, h.submitted]
  exact hle

omit [DecidableEq ε] in
theorem Sound.quiet (h : s.Sound) (hopen : s.shutdown = false) (hq : s.Quiescent) : s.metrics.activeKeys = 0 := by
  rw [metrics, List.length_eq_zero_iff, List.eq_nil_iff_forall_not_mem]
  rintro ⟨k, e⟩ hm
  have hk := h.owned hopen k e (PyDict.get?_eq_some.mpr hm)
  rw [owners, hq.1, hq.2] at hk
  cases hk

structure Flight (s : State κ ω ε) : Prop where
  single : ∀ k, s.running.countP (fun r => r.key = k ∧ r.phase = .executing) ≤ 1
  owed : s.shutdown = false → ∀ n k c, s.submissions[n]? = some (k, c) → s.Served k n ∨ s.Owed k n
  prompt : ∀ n k c, s.submissions[n]? = some (k, c) → ∀ as t, Run system s as t → t.shutdown = false →
    t.Served k n ∨ as.countP (fun l => l.1.runs k) < 4
  live : ¬s.Quiescent → ∃ a t ev, a.worker = true ∧ s.next a = some (t, ev)
  drains : ∃ bound, ∀ as t, Run (system.restrict fun _ l => l.1.worker = true) s as t → as.length ≤ bound
  quiet : s.shutdown = false → s.Quiescent → s.metrics.activeKeys = 0 ∧
    (∀ n k c, s.submissions[n]? = some (k, c) → s.Served k n) ∧ s.metrics.executed ≤ s.metrics.submitted ∧
    s.metrics.submitted = s.metrics.coalesced + s.started

theorem coalesced_events (h : Reachable system s) : s.Flight := by
  have hs := sound h
  refine ⟨fun k => ?_, fun hopen n k c hn => hs.served_or_owed hopen hn, fun n k c hn as t hr hopen =>
    hs.prompt hn hr hopen, hs.live, ⟨s.backlog, fun as t hr => hs.drains hr⟩, fun hopen hq => ?_⟩
  · have hone := List.nodup_iff_count_le_one.mp hs.alone.of_append_right k
    rw [List.count, List.countP_map] at hone
    refine le_trans (List.countP_mono_left fun r _ hr => ?_) hone
    simpa using (of_decide_eq_true hr).1
  · obtain ⟨ha, hb⟩ := hs.accepted hopen
    refine ⟨hs.quiet hopen hq, fun n k c hn => ?_, hs.executed_le, ?_⟩
    · refine (hs.served_or_owed hopen hn).resolve_right ?_
      rintro ⟨e, -, -, -, hm | ⟨r, hr, -⟩⟩
      · rw [hq.1] at hm
        cases hm
      · rw [hq.2] at hr
        cases hr
    · rw [hq.1] at hb
      exact ha.trans (congrArg _ hb)

def scans : List (Act String ℕ String) :=
  [.submit "pressure" 0, .take, .enter ⟨0, "pressure", .entering⟩, .submit "pressure" 1, .submit "pressure" 2,
    .finish ⟨0, "pressure", .executing⟩ (some "broken"), .record ⟨0, "pressure", .raised "broken"⟩,
    .settle ⟨0, "pressure", .settling⟩, .enter ⟨0, "pressure", .entering⟩, .finish ⟨0, "pressure", .executing⟩ none,
    .submit "pressure" 3, .settle ⟨0, "pressure", .settling⟩]

theorem coalesced_events_scans :
    (trace next { workers := 4 } scans).1.executions = [("pressure", 0, 0), ("pressure", 2, 2)] ∧
      (trace next { workers := 4 } scans).1.check = some "broken" ∧ (trace next { workers := 4 } scans).1.Flight :=
  ⟨by decide +kernel, by decide +kernel, coalesced_events ⟨_, _, ⟨4, rfl⟩, run_trace Start next _ _⟩⟩

end State

end ClawBox.Coalescing
