import ClawBox.Qos.UsageSampler

namespace ClawBox.Qos

open Transition Tenures

variable {V : Type}

def Source.Dates (readEpoch interval : ℕ) : Source → Prop
  | .registered taken => readEpoch ≤ taken ∧ taken ≤ interval
  | .sampled _ ended => readEpoch = ended + 1

def Source.Opens (interval : ℕ) : Source → Prop
  | .registered taken => taken = interval
  | .sampled _ ended => ended + 1 = interval

def Source.TakenFor (interval : ℕ) : Source → Prop
  | .registered taken => taken = interval
  | .sampled taken _ => taken + 1 = interval

structure Agrees (interval : ℕ) (t : Thread V) (u : Tenure Key (V × QosClass) Source) : Prop where
  owner : u.owner = (t.vm, t.qos)
  last : u.last = t.ticks
  dates : u.mark.Dates t.readEpoch interval

/-- Nothing is counted twice, and every sampled reading was taken in the interval that its sample ended. -/
structure Strict (b : Book Key (V × QosClass) Source) : Prop where
  once : b.Once
  prompt : ∀ key u, b.current.get? key = some u → ∀ i j, u.mark = .sampled i j → i = j

theorem Strict.close {b : Book Key (V × QosClass) Source} (h : Strict b) (hb : b.Kept) (key : Key) :
    Strict (b.close key) := by
  refine ⟨h.once.close hb key, ?_⟩
  intro k u hu
  cases hk : b.current.get? key with
  | none =>
    simp only [Book.close, hk] at hu
    exact h.prompt k u hu
  | some w =>
    rw [Book.close_of_some hk, PyDict.get?_pop] at hu
    split_ifs at hu
    exact h.prompt k u hu

theorem Strict.enter {b : Book Key (V × QosClass) Source} (h : Strict b) {key : Key} (owner : V × QosClass) {ticks : ℤ}
    (taken : ℕ) (hv : ∀ p ∈ b.past, p.1.key = key → p.1.UpTo ticks) :
    Strict (b.enter key owner ticks (.registered taken)) := by
  refine ⟨h.once.enter owner _ hv, ?_⟩
  intro k u hu i j hmark
  simp only [Book.enter, PyDict.get?_set] at hu
  split_ifs at hu
  · rw [← Option.some.inj hu] at hmark
    cases hmark
  · exact h.prompt k u hu i j hmark

theorem Strict.read {b : Book Key (V × QosClass) Source} (h : Strict b) (key : Key) (ticks : ℤ) (epoch : ℕ) :
    Strict (b.read key ticks (.sampled epoch epoch)) := by
  refine ⟨h.once.read key ticks _, ?_⟩
  intro k u hu i j hmark
  cases hk : b.current.get? key with
  | none =>
    simp only [Book.read, hk] at hu
    exact h.prompt k u hu i j hmark
  | some w =>
    rw [Book.read_of_some hk, PyDict.get?_set] at hu
    split_ifs at hu
    · rw [← Option.some.inj hu] at hmark
      cases hmark
      rfl
    · exact h.prompt k u hu i j hmark

theorem Strict.takenFor {b : Book Key (V × QosClass) Source} (h : Strict b) {interval : ℕ} {key : Key}
    {u : Tenure Key (V × QosClass) Source} (hu : b.current.get? key = some u) (ho : u.mark.Opens interval) :
    u.mark.TakenFor interval := by
  cases hm : u.mark with
  | registered taken =>
    rw [hm] at ho
    exact ho
  | sampled taken ended =>
    rw [hm] at ho
    have heq := h.prompt key u hu taken ended hm
    exact heq ▸ ho

namespace Usage

variable [DecidableEq V]

structure Indexed (s : Usage V) : Prop where
  vm : ∀ vm key, (s.vmSet vm).get? key = some () ↔ ∃ t, s.threads.get? key = some t ∧ t.vm = vm
  tid : ∀ tid key, s.tidKeys.get? tid = some key ↔ key.1 = tid ∧ (s.threads.get? key).isSome

structure Audited (due : QosClass → ℤ) (s : Usage V) : Prop extends Indexed s where
  kept : s.book.Kept
  live : ∀ key t, s.threads.get? key = some t → ∃ u, s.book.current.get? key = some u ∧ Agrees s.book.interval t u
  dead : ∀ key, s.threads.get? key = none → s.book.current.get? key = none
  dated : ∀ key t, s.threads.get? key = some t → t.readEpoch ≤ s.sampleEpoch
  totals : ∀ c, s.totalTicks c + due c = s.book.total fun o => o.2 = c
  lost : ∀ p ∈ s.book.past, p.2 ≤ s.book.interval ∧
    (p.2 = s.book.interval → 0 < (s.pending p.1.owner.2).lostExitTailThreads)

variable {s t : Usage V} {key : Key} {state : Thread V} {keys : PySet Key} {due : QosClass → ℤ}

theorem Indexed.listed (h : Indexed s) (hk : s.threads.get? key = some state) :
    ∃ keys, s.vmKeys.get? state.vm = some keys := by
  have hmem := (h.vm state.vm key).2 ⟨state, hk, rfl⟩
  unfold vmSet at hmem
  cases hv : s.vmKeys.get? state.vm with
  | none => simp [hv] at hmem
  | some keys => exact ⟨keys, rfl⟩

theorem Indexed.tid_unique (h : Indexed s) {key' : Key} (hk : (s.threads.get? key).isSome)
    (hk' : (s.threads.get? key').isSome) (heq : key.1 = key'.1) : key = key' := by
  have h1 := (h.tid key.1 key).2 ⟨rfl, hk⟩
  have h2 := (h.tid key.1 key').2 ⟨heq.symm, hk'⟩
  exact Option.some.inj (h1.symm.trans h2)

theorem vmSet_without (hv : s.vmKeys.get? state.vm = some keys) (vm : V) (k : Key) :
    ((s.without key state keys).vmSet vm).get? k = if vm = state.vm ∧ k = key then none else (s.vmSet vm).get? k := by
  have hset : (s.without key state keys).vmKeys = s.vmKeys.set state.vm (keys.discard key) := rfl
  unfold vmSet
  rw [hset, PyDict.get?_set]
  by_cases hvm : vm = state.vm
  · subst hvm
    simp [PySet.discard, PyDict.get?_pop, hv]
  · simp [hvm]

theorem Indexed.without (h : Indexed s) (hk : s.threads.get? key = some state)
    (hv : s.vmKeys.get? state.vm = some keys) : Indexed (s.without key state keys) := by
  have hthreads : (s.without key state keys).threads = s.threads.pop key := rfl
  have htids : (s.without key state keys).tidKeys = s.tidKeys.pop key.1 := rfl
  refine ⟨?_, ?_⟩
  · intro vm k
    rw [vmSet_without hv, hthreads, PyDict.get?_pop]
    by_cases hkk : k = key
    · subst hkk
      rw [if_pos rfl]
      by_cases hvm : vm = state.vm
      · simp [hvm]
      · have := h.vm vm k
        simp only [hk, Option.some.injEq, exists_eq_left', Ne.symm hvm, iff_false] at this
        simp [hvm, this]
    · simpa [hkk] using h.vm vm k
  · intro tid k
    rw [htids, hthreads, PyDict.get?_pop, PyDict.get?_pop]
    by_cases htid : tid = key.1
    · simp only [htid, if_true, reduceCtorEq, false_iff, not_and]
      intro heq
      split_ifs with hkk
      · simp
      · intro hlive
        exact hkk (h.tid_unique hlive (by simp [hk]) heq)
    · rw [if_neg htid, h.tid]
      constructor
      · rintro ⟨rfl, hlive⟩
        have hne : k ≠ key := by
          rintro rfl
          exact htid rfl
        simp [hne, hlive]
      · rintro ⟨rfl, hlive⟩
        have hne : k ≠ key := by
          rintro rfl
          exact htid rfl
        simpa [hne] using hlive

theorem Audited.without (h : Audited due s) (hk : s.threads.get? key = some state)
    (hv : s.vmKeys.get? state.vm = some keys) : Audited due (s.without key state keys) := by
  have hthreads : (s.without key state keys).threads = s.threads.pop key := rfl
  have hbook : (s.without key state keys).book = s.book.close key := rfl
  obtain ⟨u, hu, hag⟩ := h.live key state hk
  refine { h.toIndexed.without hk hv with kept := ?_, live := ?_, dead := ?_, dated := ?_, totals := ?_, lost := ?_ }
  · rw [hbook]
    exact h.kept.close key
  · intro k st hst
    rw [hthreads, PyDict.get?_pop] at hst
    rw [hbook, Book.close_of_some hu]
    split_ifs at hst with hkk
    obtain ⟨w, hw, hagw⟩ := h.live k st hst
    exact ⟨w, by rw [PyDict.get?_pop_ne _ hkk, hw], hagw⟩
  · intro k hnone
    rw [hthreads, PyDict.get?_pop] at hnone
    rw [hbook, Book.close_of_some hu, PyDict.get?_pop]
    split_ifs at hnone ⊢ with hkk
    · rfl
    · exact h.dead k hnone
  · intro k st hst
    rw [hthreads, PyDict.get?_pop] at hst
    split_ifs at hst
    exact h.dated k st hst
  · intro c
    rw [hbook, Book.total_close _ hu]
    exact h.totals c
  · intro p hp
    rw [hbook, Book.close_of_some hu] at hp
    rw [hbook, Book.close_interval]
    have hpending : (s.without key state keys).pending = Function.update s.pending state.qos
        { s.pending state.qos with
          departedThreads := (s.pending state.qos).departedThreads + 1
          lostExitTailThreads := (s.pending state.qos).lostExitTailThreads + 1 } := rfl
    rw [hpending, Function.update_apply]
    rcases List.mem_append.1 hp with hp | hp
    · refine ⟨(h.lost p hp).1, fun hi => ?_⟩
      have hpos := (h.lost p hp).2 hi
      split_ifs
      · exact Nat.succ_pos _
      · exact hpos
    · rw [List.mem_singleton.1 hp]
      refine ⟨le_refl _, fun _ => ?_⟩
      simp [hag.owner]

theorem Audited.drop (h : Audited due s) (hk : s.threads.get? key = some state) :
    ∃ keys, s.vmKeys.get? state.vm = some keys ∧ s.drop key = some (s.without key state keys) ∧
      Audited due (s.without key state keys) := by
  obtain ⟨keys, hv⟩ := h.listed hk
  exact ⟨keys, hv, by simp [Usage.drop, hk, hv], h.without hk hv⟩

theorem vmSet_withThread {taken : ℕ} (hv : s.vmKeys.get? state.vm = some keys) (vm : V) (k : Key) :
    ((s.withThread key state keys taken).vmSet vm).get? k =
      if vm = state.vm ∧ k = key then some () else (s.vmSet vm).get? k := by
  have hset : (s.withThread key state keys taken).vmKeys = s.vmKeys.set state.vm (keys.add key) := rfl
  unfold vmSet
  rw [hset, PyDict.get?_set]
  by_cases hvm : vm = state.vm
  · subst hvm
    simp [PySet.add, PyDict.get?_set, hv]
  · simp [hvm]

theorem Indexed.withThread {taken : ℕ} (h : Indexed s) (hk : s.threads.get? key = none)
    (htid : s.tidKeys.get? key.1 = none) (hv : s.vmKeys.get? state.vm = some keys) :
    Indexed (s.withThread key state keys taken) := by
  have hthreads : (s.withThread key state keys taken).threads = s.threads.set key state := rfl
  have htids : (s.withThread key state keys taken).tidKeys = s.tidKeys.set key.1 key := rfl
  refine ⟨?_, ?_⟩
  · intro vm k
    rw [vmSet_withThread hv, hthreads, PyDict.get?_set]
    by_cases hkk : k = key
    · subst hkk
      by_cases hvm : vm = state.vm
      · simp [hvm]
      · have := h.vm vm k
        simp only [hk, reduceCtorEq, false_and, exists_false, iff_false] at this
        simp [hvm, this, Ne.symm hvm]
    · simpa [hkk] using h.vm vm k
  · intro tid k
    rw [htids, hthreads, PyDict.get?_set, PyDict.get?_set]
    by_cases ht : tid = key.1
    · subst ht
      simp only [if_true, Option.some.injEq]
      constructor
      · rintro rfl
        simp
      · rintro ⟨heq, hlive⟩
        by_contra hne
        rw [if_neg (Ne.symm hne)] at hlive
        have := (h.tid key.1 k).2 ⟨heq, hlive⟩
        rw [htid] at this
        cases this
    · rw [if_neg ht, h.tid]
      constructor
      · rintro ⟨rfl, hlive⟩
        have hne : k ≠ key := by
          rintro rfl
          exact ht rfl
        simp [hne, hlive]
      · rintro ⟨rfl, hlive⟩
        have hne : k ≠ key := by
          rintro rfl
          exact ht rfl
        simpa [hne] using hlive

theorem Audited.withThread {taken : ℕ} (h : Audited due s) (hk : s.threads.get? key = none)
    (htid : s.tidKeys.get? key.1 = none) (hv : s.vmKeys.get? state.vm = some keys)
    (hclock : s.sampleEpoch = s.book.interval) (htaken : state.readEpoch ≤ taken ∧ taken ≤ s.book.interval) :
    Audited due (s.withThread key state keys taken) := by
  have hthreads : (s.withThread key state keys taken).threads = s.threads.set key state := rfl
  have hbook : (s.withThread key state keys taken).book =
    s.book.enter key (state.vm, state.qos) state.ticks (.registered taken) := rfl
  refine { h.toIndexed.withThread hk htid hv with
    kept := ?_, live := ?_, dead := ?_, dated := ?_, totals := ?_, lost := ?_ }
  · rw [hbook]
    exact h.kept.enter _ _ _ _
  · intro k st hst
    rw [hthreads, PyDict.get?_set] at hst
    rw [hbook]
    simp only [Book.enter, PyDict.get?_set]
    split_ifs at hst ⊢ with hkk
    · cases Option.some.inj hst
      exact ⟨_, rfl, rfl, rfl, htaken⟩
    · exact h.live k st hst
  · intro k hnone
    rw [hthreads, PyDict.get?_set] at hnone
    rw [hbook]
    simp only [Book.enter, PyDict.get?_set]
    split_ifs at hnone ⊢ with hkk
    exact h.dead k hnone
  · intro k st hst
    rw [hthreads, PyDict.get?_set] at hst
    split_ifs at hst with hkk
    · cases Option.some.inj hst
      exact (htaken.1.trans htaken.2).trans hclock.ge
    · exact h.dated k st hst
  · intro c
    rw [hbook, Book.total_enter _ (h.dead key hk)]
    exact h.totals c
  · intro p hp
    refine ⟨(h.lost p hp).1, fun hi => ?_⟩
    have hpos := (h.lost p hp).2 hi
    have hpending : (s.withThread key state keys taken).pending = Function.update s.pending state.qos
        { s.pending state.qos with newThreads := (s.pending state.qos).newThreads + 1 } := rfl
    rw [hpending, Function.update_apply]
    split_ifs with hc
    · rwa [← hc]
    · exact hpos

theorem Indexed.recorded {epoch taken : ℕ} {ticks : ℤ} (h : Indexed s) (hk : s.threads.get? key = some state) :
    Indexed (s.recorded key state epoch ticks taken) := by
  have hthreads : (s.recorded key state epoch ticks taken).threads =
    s.threads.set key { state with ticks := ticks, readEpoch := epoch + 1 } := rfl
  refine ⟨?_, ?_⟩
  · intro vm k
    change (s.vmSet vm).get? k = some () ↔ _
    rw [hthreads, PyDict.get?_set]
    by_cases hkk : k = key
    · subst hkk
      simpa [hk] using h.vm vm k
    · simpa [hkk] using h.vm vm k
  · intro tid k
    change s.tidKeys.get? tid = some k ↔ _
    rw [hthreads, PyDict.get?_set]
    by_cases hkk : k = key
    · subst hkk
      simpa [hk] using h.tid tid k
    · simpa [hkk] using h.tid tid k

theorem Audited.recorded {epoch taken : ℕ} {ticks : ℤ} (h : Audited due s) (hk : s.threads.get? key = some state)
    (hticks : state.ticks ≤ ticks) (hepoch : s.sampleEpoch = epoch + 1) :
    Audited (Function.update due state.qos (due state.qos + (ticks - state.ticks)))
      (s.recorded key state epoch ticks taken) := by
  have hthreads : (s.recorded key state epoch ticks taken).threads =
    s.threads.set key { state with ticks := ticks, readEpoch := epoch + 1 } := rfl
  have hbook : (s.recorded key state epoch ticks taken).book = s.book.read key ticks (.sampled taken epoch) := rfl
  obtain ⟨u, hu, hag⟩ := h.live key state hk
  refine { h.toIndexed.recorded hk with kept := ?_, live := ?_, dead := ?_, dated := ?_, totals := ?_, lost := ?_ }
  · rw [hbook]
    exact h.kept.read hu (hag.last ▸ hticks) _
  · intro k st hst
    rw [hthreads, PyDict.get?_set] at hst
    rw [hbook, Book.read_of_some hu]
    simp only [PyDict.get?_set]
    split_ifs at hst ⊢ with hkk
    · cases Option.some.inj hst
      exact ⟨_, rfl, hag.owner, rfl, rfl⟩
    · exact h.live k st hst
  · intro k hnone
    rw [hthreads, PyDict.get?_set] at hnone
    rw [hbook, Book.read_of_some hu]
    simp only [PyDict.get?_set]
    split_ifs at hnone ⊢ with hkk
    exact h.dead k hnone
  · intro k st hst
    rw [hthreads, PyDict.get?_set] at hst
    split_ifs at hst with hkk
    · cases Option.some.inj hst
      exact hepoch.ge
    · exact h.dated k st hst
  · intro c
    have htotal := h.totals c
    rw [hbook, Book.total_read _ hu, hag.owner, hag.last, ← htotal]
    have hsame : (s.recorded key state epoch ticks taken).totalTicks c = s.totalTicks c := rfl
    rw [hsame, Function.update_apply]
    by_cases hc : c = state.qos
    · subst hc
      simp only [if_true]
      omega
    · simp [hc, Ne.symm hc]
  · intro p hp
    rw [hbook, Book.read_of_some hu] at hp
    rw [hbook, Book.read_interval]
    exact h.lost p hp

structure SameClock (s t : Usage V) : Prop where
  epoch : t.sampleEpoch = s.sampleEpoch
  interval : t.book.interval = s.book.interval

omit [DecidableEq V] in
theorem SameClock.refl (s : Usage V) : SameClock s s := ⟨rfl, rfl⟩

omit [DecidableEq V] in
theorem SameClock.trans {u : Usage V} (h : SameClock s t) (h' : SameClock t u) : SameClock s u :=
  ⟨h'.epoch.trans h.epoch, h'.interval.trans h.interval⟩

theorem SameClock.without (s : Usage V) (key : Key) (state : Thread V) (keys : PySet Key) :
    SameClock s (s.without key state keys) :=
  ⟨rfl, Book.close_interval s.book key⟩

omit [DecidableEq V] in
theorem SameClock.recorded (s : Usage V) (key : Key) (state : Thread V) (epoch taken : ℕ) (ticks : ℤ) :
    SameClock s (s.recorded key state epoch ticks taken) :=
  ⟨rfl, Book.read_interval s.book key ticks _⟩

def Fresh (s : Usage V) (vm : V) (qos : QosClass) (r : Reading) : Prop :=
  ∀ key ticks, r.result = some (key, ticks) →
    s.owner key = some (vm, qos) ∨ ∀ u ∈ s.book.tenures, u.key = key → u.UpTo ticks

theorem fresh_without {vm : V} {qos : QosClass} {r : Reading} (h : Fresh s vm qos r)
    (hr : ∀ ticks, r.result ≠ some (key, ticks)) : Fresh (s.without key state keys) vm qos r := by
  intro k ticks hres
  have hne : k ≠ key := by
    rintro rfl
    exact hr ticks hres
  rcases h k ticks hres with ho | hu
  · left
    have hthreads : (s.without key state keys).threads = s.threads.pop key := rfl
    rw [← ho, owner, owner, hthreads, PyDict.get?_pop_ne _ hne]
  · exact .inr fun u hmem => hu u (Book.mem_close hmem)

theorem fresh_withThread {vm : V} {qos : QosClass} {r : Reading} {taken : ℕ} (h : Fresh s vm qos r)
    (hr : ∀ ticks, r.result ≠ some (key, ticks)) : Fresh (s.withThread key state keys taken) vm qos r := by
  intro k ticks hres
  have hne : k ≠ key := by
    rintro rfl
    exact hr ticks hres
  rcases h k ticks hres with ho | hu
  · left
    have hthreads : (s.withThread key state keys taken).threads = s.threads.set key state := rfl
    rw [← ho, owner, owner, hthreads, PyDict.get?_set_ne _ _ hne]
  · right
    intro u hmem hkey
    rcases Book.mem_enter hmem with rfl | hmem
    · exact absurd hkey.symm hne
    · exact hu u hmem hkey

structure Open (s : Usage V) : Prop extends Audited (fun _ => 0) s where
  clock : s.sampleEpoch = s.book.interval

theorem Open.drop (h : Open s) (hk : s.threads.get? key = some state) :
    ∃ keys, s.drop key = some (s.without key state keys) ∧ Open (s.without key state keys) := by
  obtain ⟨keys, _, hdrop, haud⟩ := h.toAudited.drop hk
  have hclock := SameClock.without s key state keys
  exact ⟨keys, hdrop, { haud with clock := hclock.epoch.trans (h.clock.trans hclock.interval.symm) }⟩

theorem dropAll_spec (h : Open s) {gone : List Key} (hnodup : gone.Nodup)
    (hgone : ∀ key ∈ gone, (s.threads.get? key).isSome) :
    ∃ t, s.dropAll gone = some t ∧ Open t ∧ SameClock s t ∧ (Strict s.book → Strict t.book) ∧
      ∀ vm qos r, (∀ key ∈ gone, ∀ ticks, r.result ≠ some (key, ticks)) → Fresh s vm qos r → Fresh t vm qos r := by
  induction gone generalizing s with
  | nil => exact ⟨s, rfl, h, SameClock.refl s, id, fun _ _ _ _ hf => hf⟩
  | cons key gone ih =>
    obtain ⟨hnew, hnodup⟩ := List.nodup_cons.1 hnodup
    obtain ⟨state, hk⟩ := Option.isSome_iff_exists.1 (hgone key List.mem_cons_self)
    obtain ⟨keys, hdrop, hopen⟩ := h.drop hk
    have hrest : ∀ k ∈ gone, ((s.without key state keys).threads.get? k).isSome := by
      intro k hmem
      have hne : k ≠ key := by
        rintro rfl
        exact hnew hmem
      have hthreads : (s.without key state keys).threads = s.threads.pop key := rfl
      rw [hthreads, PyDict.get?_pop_ne _ hne]
      exact hgone k (List.mem_cons_of_mem _ hmem)
    obtain ⟨t, ht, htopen, hclock, honce, hfresh⟩ := ih hopen hnodup hrest
    refine ⟨t, by simp [dropAll, hdrop, ht], htopen, (SameClock.without s key state keys).trans hclock, ?_, ?_⟩
    · intro ho
      exact honce (ho.close h.kept key)
    · intro vm qos r hr hf
      apply hfresh vm qos r
      · intro k hmem
        exact hr k (List.mem_cons_of_mem _ hmem)
      · exact fresh_without hf (hr key List.mem_cons_self)

theorem displaced_some {vm : V} {qos : QosClass} {previous : Key} (h : Indexed s)
    (hd : s.displaced vm qos key = some previous) :
    previous.1 = key.1 ∧ (s.threads.get? previous).isSome ∧ s.owner key ≠ some (vm, qos) := by
  obtain ⟨htid, hcond⟩ := Option.filter_eq_some_iff.1 hd
  obtain ⟨hp, hlive⟩ := (h.tid _ _).1 htid
  refine ⟨hp, hlive, ?_⟩
  intro ho
  have hkey : (s.threads.get? key).isSome := by
    unfold owner at ho
    cases hk : s.threads.get? key with
    | none => simp [hk] at ho
    | some _ => rfl
  have heq := h.tid_unique hlive hkey hp
  subst heq
  simp [ho] at hcond

theorem displaced_none {vm : V} {qos : QosClass} (h : Indexed s) (hd : s.displaced vm qos key = none) :
    s.tidKeys.get? key.1 = none ∧ s.threads.get? key = none ∨ s.owner key = some (vm, qos) := by
  cases htid : s.tidKeys.get? key.1 with
  | none =>
    left
    refine ⟨rfl, ?_⟩
    cases hk : s.threads.get? key with
    | none => rfl
    | some state =>
      have := (h.tid key.1 key).2 ⟨rfl, by simp [hk]⟩
      rw [htid] at this
      cases this
  | some previous =>
    right
    unfold displaced at hd
    rw [htid, Option.filter_eq_none_iff] at hd
    have hcond := hd previous rfl
    simp only [Bool.or_eq_true, decide_eq_true_eq, ne_eq, not_or, not_not] at hcond
    rw [← hcond.1]
    exact hcond.2

theorem displace_spec (h : Open s) (vm : V) (qos : QosClass) (key : Key) :
    ∃ t, s.displace vm qos key = some t ∧ Open t ∧ SameClock s t ∧
      ((s.vmKeys.get? vm).isSome → (t.vmKeys.get? vm).isSome) ∧ (Strict s.book → Strict t.book) ∧
      (t.threads.get? key = none → t.tidKeys.get? key.1 = none ∧ s.owner key ≠ some (vm, qos)) ∧
      (∀ u ∈ t.book.tenures, u ∈ s.book.tenures) ∧
      ∀ r, (∀ k ticks, r.result = some (k, ticks) → k.1 ≠ key.1) → Fresh s vm qos r → Fresh t vm qos r := by
  cases hd : s.displaced vm qos key with
  | none =>
    refine ⟨s, by simp [displace, hd], h, SameClock.refl s, id, id, ?_, fun _ hu => hu, fun _ _ hf => hf⟩
    intro hk
    rcases displaced_none h.toIndexed hd with ⟨htid, _⟩ | ho
    · exact ⟨htid, by simp [owner, hk]⟩
    · simp [owner, hk] at ho
  | some previous =>
    obtain ⟨htid, hlive, hother⟩ := displaced_some h.toIndexed hd
    obtain ⟨state, hk⟩ := Option.isSome_iff_exists.1 hlive
    obtain ⟨keys, hdrop, hopen⟩ := h.drop hk
    refine ⟨_, by simpa [displace, hd] using hdrop, hopen, SameClock.without s previous state keys, ?_, fun ho =>
      ho.close h.kept previous, ?_, fun u hu => Book.mem_close hu, ?_⟩
    · intro hvm
      have hset : (s.without previous state keys).vmKeys = s.vmKeys.set state.vm (keys.discard previous) := rfl
      rw [hset, PyDict.get?_set]
      split_ifs
      · rfl
      · exact hvm
    · intro _
      have htids : (s.without previous state keys).tidKeys = s.tidKeys.pop previous.1 := rfl
      rw [htids, htid]
      exact ⟨PyDict.get?_pop_self _ _, hother⟩
    · intro r hr hf
      apply fresh_without hf
      intro ticks hres
      exact hr previous ticks hres htid

theorem enterReading_spec (h : Open s) {vm : V} (qos : QosClass) {epoch : ℕ} {r : Reading}
    (hvm : (s.vmKeys.get? vm).isSome) (hr : epoch ≤ r.interval ∧ r.interval ≤ s.book.interval) :
    ∃ t, enterReading vm qos epoch s r = some t ∧ Open t ∧ SameClock s t ∧ (t.vmKeys.get? vm).isSome ∧
      (Strict s.book → Fresh s vm qos r → Strict t.book) ∧
      ∀ q : Reading, (∀ k i k' j, r.result = some (k, i) → q.result = some (k', j) → k'.1 ≠ k.1) →
        Fresh s vm qos q → Fresh t vm qos q := by
  cases hres : r.result with
  | none => exact ⟨s, by simp [enterReading, hres], h, SameClock.refl s, hvm, fun ho _ => ho, fun _ _ hf => hf⟩
  | some found =>
    obtain ⟨key, ticks⟩ := found
    obtain ⟨t, ht, hopen, hclock, htvm, honce, hnone, htenures, hfresh⟩ := displace_spec h vm qos key
    cases hk : t.threads.get? key with
    | some state =>
      refine ⟨t, by simp [enterReading, hres, ht, hk], hopen, hclock, htvm hvm, fun ho _ => honce ho, ?_⟩
      intro q hq hf
      exact hfresh q (fun k j hkj => hq key ticks k j rfl hkj) hf
    | none =>
      obtain ⟨keys, hkeys⟩ := Option.isSome_iff_exists.1 (htvm hvm)
      obtain ⟨htid, hother⟩ := hnone hk
      have hdates : epoch ≤ r.interval ∧ r.interval ≤ t.book.interval := by rwa [hclock.interval]
      have haud : Audited _ (t.withThread key ⟨vm, qos, ticks, epoch⟩ keys r.interval) :=
        hopen.toAudited.withThread hk htid hkeys hopen.clock hdates
      refine ⟨t.withThread key ⟨vm, qos, ticks, epoch⟩ keys r.interval, by simp [enterReading, hres, ht, hk, hkeys],
        { haud with clock := hopen.clock }, hclock.trans ⟨rfl, rfl⟩, ?_, ?_, ?_⟩
      · have hset : (t.withThread key ⟨vm, qos, ticks, epoch⟩ keys r.interval).vmKeys =
          t.vmKeys.set vm (keys.add key) := rfl
        simp [hset]
      · intro ho hf
        apply (honce ho).enter
        intro p hp hkey
        rcases hf key ticks hres with howner | hupto
        · exact absurd howner hother
        · exact hupto p.1 (htenures p.1 (Book.mem_tenures.2 (.inl ⟨p.2, hp⟩))) hkey
      · intro q hq hf
        have hne : ∀ k j, q.result = some (k, j) → k.1 ≠ key.1 := fun k j hkj => hq key ticks k j rfl hkj
        apply fresh_withThread (hfresh q hne hf)
        intro j hkj
        exact hne key j hkj rfl

theorem enterReadings_spec (h : Open s) {vm : V} {qos : QosClass} {epoch : ℕ} {readings : List (ℤ × Reading)}
    (hvm : (s.vmKeys.get? vm).isSome)
    (hr : ∀ r ∈ readings, epoch ≤ r.2.interval ∧ r.2.interval ≤ s.book.interval)
    (hkeys : ∀ r ∈ readings, ∀ key ticks, r.2.result = some (key, ticks) → key.1 = r.1)
    (hnodup : (readings.map Prod.fst).Nodup) :
    ∃ t, enterReadings vm qos epoch s readings = some t ∧ Open t ∧ SameClock s t ∧
      (Strict s.book → (∀ r ∈ readings, Fresh s vm qos r.2) → Strict t.book) := by
  induction readings generalizing s with
  | nil => exact ⟨s, rfl, h, SameClock.refl s, fun ho _ => ho⟩
  | cons r readings ih =>
    obtain ⟨hnew, hnodup⟩ := List.nodup_cons.1 hnodup
    obtain ⟨t, ht, hopen, hclock, htvm, honce, hfresh⟩ := enterReading_spec h qos hvm (hr r List.mem_cons_self)
    have hrest : ∀ q ∈ readings, epoch ≤ q.2.interval ∧ q.2.interval ≤ t.book.interval := by
      intro q hq
      rw [hclock.interval]
      exact hr q (List.mem_cons_of_mem _ hq)
    obtain ⟨u, hu, huopen, huclock, huonce⟩ :=
      ih hopen htvm hrest (fun q hq => hkeys q (List.mem_cons_of_mem _ hq)) hnodup
    refine ⟨u, by simp [enterReadings, ht, hu], huopen, hclock.trans huclock, ?_⟩
    intro ho hf
    apply huonce (honce ho (hf r List.mem_cons_self))
    intro q hq
    apply hfresh q.2 ?_ (hf q (List.mem_cons_of_mem _ hq))
    intro k i k' j hk hk' heq
    have h1 := hkeys r List.mem_cons_self k i hk
    have h2 := hkeys q (List.mem_cons_of_mem _ hq) k' j hk'
    apply hnew
    rw [← h1, ← heq, h2]
    exact List.mem_map_of_mem hq

theorem Open.failures (h : Open s) (qos : QosClass) (n : ℕ) :
    Open (s.change qos fun c => { c with registrationFailures := c.registrationFailures + n }) := by
  refine { h with lost := ?_ }
  intro p hp
  refine ⟨(h.lost p hp).1, fun hi => ?_⟩
  have hpos := (h.lost p hp).2 hi
  simp only [change, Function.update_apply]
  split_ifs with hc
  · rwa [← hc]
  · exact hpos

theorem Open.setDefault (h : Open s) (vm : V) : Open { s with vmKeys := s.vmKeys.set vm (s.vmSet vm) } := by
  refine { h with vm := ?_ }
  intro w key
  have hset : ({ s with vmKeys := s.vmKeys.set vm (s.vmSet vm) } : Usage V).vmSet w = s.vmSet w := by
    rw [vmSet, PyDict.get?_set]
    split_ifs with hw
    · rw [hw]
      rfl
    · rfl
  rw [hset]
  exact h.vm w key

theorem enter_spec (h : Open s) {vm : V} {qos : QosClass} {epoch : ℕ} {readings : List (ℤ × Reading)}
    (hr : ∀ r ∈ readings, epoch ≤ r.2.interval ∧ r.2.interval ≤ s.book.interval)
    (hkeys : ∀ r ∈ readings, ∀ key ticks, r.2.result = some (key, ticks) → key.1 = r.1)
    (hnodup : (readings.map Prod.fst).Nodup) :
    ∃ t, s.enter vm qos epoch readings = some t ∧ Open t ∧ SameClock s t ∧
      (Strict s.book → (∀ r ∈ readings, Fresh s vm qos r.2) → Strict t.book) := by
  let failures := readings.countP fun r => r.2.result.isNone
  let present := readings.filterMap fun r => r.2.result.map Prod.fst
  let s₁ := s.change qos fun c => { c with registrationFailures := c.registrationFailures + failures }
  let gone := (s₁.vmSet vm).keys.filter (· ∉ present)
  have h₁ : Open s₁ := h.failures qos failures
  have hgone : ∀ key ∈ gone, (s₁.threads.get? key).isSome := by
    intro key hkey
    obtain ⟨e, he, rfl⟩ := List.mem_map.1 (List.mem_of_mem_filter hkey)
    obtain ⟨state, hstate, _⟩ := (h₁.vm vm e.1).1 (PyDict.get?_eq_some.2 he)
    simp [hstate]
  have hnodupGone : gone.Nodup := (s₁.vmSet vm).nodup.filter _
  obtain ⟨t, ht, htopen, htclock, htonce, htfresh⟩ := dropAll_spec h₁ hnodupGone hgone
  have hvm : ((t.vmKeys.set vm (t.vmSet vm)).get? vm).isSome := by simp
  have hrt : ∀ r ∈ readings, epoch ≤ r.2.interval ∧ r.2.interval ≤ t.book.interval := by
    intro r hmem
    rw [htclock.interval]
    exact hr r hmem
  obtain ⟨u, hu, huopen, huclock, huonce⟩ :=
    enterReadings_spec (htopen.setDefault vm) hvm hrt hkeys hnodup
  have hclock : SameClock t u := ⟨huclock.epoch, huclock.interval⟩
  have hstart : SameClock s s₁ := ⟨rfl, rfl⟩
  refine ⟨u, ?_, huopen, (hstart.trans htclock).trans hclock, ?_⟩
  · change (s₁.dropAll gone).bind _ = _
    rw [ht]
    exact hu
  · intro ho hf
    apply huonce (htonce ho)
    intro r hmem
    apply htfresh vm qos r.2 ?_ (hf r hmem)
    intro key hkey ticks hres
    have hnot : key ∉ present := by simpa using (List.mem_filter.1 hkey).2
    apply hnot
    exact List.mem_filterMap.2 ⟨r, hmem, by simp [hres]⟩

omit [DecidableEq V] in
theorem accepted_some {r : Reading} {ticks : ℤ} (h : accepted key state r = some ticks) :
    r.result = some (key, ticks) ∧ state.ticks ≤ ticks := by
  unfold accepted at h
  split at h
  · cases h
  · rename_i found i hres
    split_ifs at h with hc
    obtain ⟨hkey, hle⟩ := not_or.1 hc
    rw [Option.some.inj h] at hres hle
    exact ⟨by rw [hres, not_not.1 hkey], not_lt.1 hle⟩

structure Renewed (epoch : ℕ) (key : Key) (old : Thread V) (r : Reading) (st : Thread V) : Prop where
  read : accepted key old r = some st.ticks
  state : st = { old with ticks := st.ticks, readEpoch := epoch + 1 }

structure Sampled (epoch : ℕ) (readings : List (Key × Thread V × Reading)) (s t : Usage V) (tally tally' : Tally) :
    Prop where
  audited : Audited tally'.ticks t
  clock : SameClock s t
  crossed : ∀ c, tally.crossed c ≤ tally'.crossed c
  threads : ∀ k st, t.threads.get? k = some st → s.threads.get? k = some st ∨
    ∃ old r, (k, old, r) ∈ readings ∧ s.threads.get? k = some old ∧ Renewed epoch k old r st ∧
      (tally'.crossed st.qos = 0 → old.readEpoch = epoch)
  strict : Strict s.book →
    (∀ k old r, (k, old, r) ∈ readings → s.threads.get? k = some old → (accepted k old r).isSome → r.interval = epoch) →
    Strict t.book

theorem recordReading_spec {epoch : ℕ} {tally : Tally} (h : Audited tally.ticks s) (hepoch : s.sampleEpoch = epoch + 1)
    (key : Key) (state : Thread V) (r : Reading) :
    ∃ t tally', recordReading epoch s tally key state r = some (t, tally') ∧
      Sampled epoch [(key, state, r)] s t tally tally' := by
  by_cases hk : s.threads.get? key = some state
  · cases hacc : accepted key state r with
    | none =>
      obtain ⟨keys, _, hdrop, haud⟩ := h.drop hk
      refine ⟨_, tally, by simp [recordReading, hk, hacc, hdrop], haud, SameClock.without s key state keys,
        fun _ => le_refl _, ?_, fun hs _ => hs.close h.kept key⟩
      intro k st hst
      have hthreads : (s.without key state keys).threads = s.threads.pop key := rfl
      rw [hthreads, PyDict.get?_pop] at hst
      split_ifs at hst
      exact .inl hst
    | some ticks =>
      obtain ⟨_, hle⟩ := accepted_some hacc
      refine ⟨s.recorded key state epoch ticks r.interval,
        tally.add state epoch ticks, by simp [recordReading, hk, hacc], h.recorded hk hle hepoch,
        SameClock.recorded s key state epoch r.interval ticks, ?_, ?_, ?_⟩
      · intro c
        simp only [Tally.add, Function.update_apply]
        split_ifs with hc
        · subst hc
          exact Nat.le_add_right _ _
        · subst hc
          exact Nat.le_add_right _ _
        · exact le_refl _
      · intro k st hst
        have hthreads : (s.recorded key state epoch ticks r.interval).threads =
          s.threads.set key { state with ticks := ticks, readEpoch := epoch + 1 } := rfl
        rw [hthreads, PyDict.get?_set] at hst
        split_ifs at hst with hkk
        · subst hkk
          obtain rfl := Option.some.inj hst
          refine .inr ⟨state, r, by simp, hk, ⟨hacc, rfl⟩, ?_⟩
          intro hz
          by_contra hne
          simp [Tally.add, hne] at hz
        · exact .inl hst
      · intro hs htimely
        have htaken : r.interval = epoch := htimely key state r (by simp) hk (by simp [hacc])
        change Strict (s.book.read key ticks (.sampled r.interval epoch))
        rw [htaken]
        exact hs.read key ticks epoch
  · exact ⟨s, tally, by simp [recordReading, hk], h, SameClock.refl s, fun _ => le_refl _, fun _ _ hst => .inl hst,
      fun hs _ => hs⟩

theorem recordReadings_spec {epoch : ℕ} {tally : Tally} {readings : List (Key × Thread V × Reading)}
    (h : Audited tally.ticks s) (hepoch : s.sampleEpoch = epoch + 1)
    (hold : ∀ k old r, (k, old, r) ∈ readings → old.readEpoch ≤ epoch) :
    ∃ t tally', recordReadings epoch s tally readings = some (t, tally') ∧ Sampled epoch readings s t tally tally' := by
  induction readings generalizing s tally with
  | nil =>
    exact ⟨s, tally, rfl, h, SameClock.refl s, fun _ => le_refl _, fun _ _ hst => .inl hst, fun hs _ => hs⟩
  | cons e readings ih =>
    obtain ⟨key, state, r⟩ := e
    obtain ⟨t, tally₁, ht, hone⟩ := recordReading_spec h hepoch key state r
    have hold' : ∀ k old q, (k, old, q) ∈ readings → old.readEpoch ≤ epoch :=
      fun k old q hmem => hold k old q (List.mem_cons_of_mem _ hmem)
    obtain ⟨u, tally₂, hu, hrest⟩ := ih hone.audited (hone.clock.epoch.trans hepoch) hold'
    have hback : ∀ k old, t.threads.get? k = some old → old.readEpoch ≤ epoch → s.threads.get? k = some old := by
      intro k old hk hle
      rcases hone.threads k old hk with hs | ⟨_, _, _, _, hren, _⟩
      · exact hs
      · rw [hren.state] at hle
        exact absurd hle (Nat.not_succ_le_self epoch)
    refine ⟨u, tally₂, by simp [recordReadings, ht, hu], hrest.audited, hone.clock.trans hrest.clock,
      fun c => (hone.crossed c).trans (hrest.crossed c), ?_, ?_⟩
    · intro k st hst
      rcases hrest.threads k st hst with hk | ⟨old, q, hmem, hk, hren, hz⟩
      · rcases hone.threads k st hk with hs | ⟨old, q, hmem, hs, hren, hz⟩
        · exact .inl hs
        · refine .inr ⟨old, q, by simpa using Or.inl (List.mem_singleton.1 hmem), hs, hren, ?_⟩
          intro hzero
          apply hz
          have := hrest.crossed st.qos
          omega
      · exact .inr ⟨old, q, List.mem_cons_of_mem _ hmem, hback k old hk (hold' k old q hmem), hren, hz⟩
    · intro hs htimely
      apply hrest.strict
      · apply hone.strict hs
        intro k old q hmem
        exact htimely k old q (List.mem_singleton.1 hmem ▸ List.mem_cons_self)
      · intro k old q hmem hk
        exact htimely k old q (List.mem_cons_of_mem _ hmem) (hback k old hk (hold' k old q hmem))

omit [DecidableEq V] in
theorem countThreads_eq_zero (s : Usage V) (p : Thread V → Bool) :
    s.countThreads p = 0 ↔ ∀ key t, s.threads.get? key = some t → p t = false := by
  simp only [countThreads, List.countP_eq_zero, PyDict.mem_values, Bool.not_eq_true]
  constructor
  · intro h key t ht
    exact h t ⟨key, ht⟩
  · rintro h t ⟨key, ht⟩
    exact h key t ht

omit [DecidableEq V] in
theorem complete_iff (cap : Capacity) (s : Usage V) (tally : Tally) (epoch : ℕ) (elapsed : ℚ) (c : QosClass) :
    (s.classReport cap tally epoch elapsed c).complete = true ↔ (s.pending c).missing = 0 ∧ tally.crossed c = 0 ∧
      ∀ key t, s.threads.get? key = some t → t.qos = c → t.readEpoch = epoch + 1 := by
  change (decide _ && decide _) = true ↔ _
  rw [Bool.and_eq_true, decide_eq_true_iff, decide_eq_true_iff, Nat.add_eq_zero_iff, countThreads_eq_zero]
  simp

/-- What a complete class promises: each of its threads has been read in the sample, after a reading that `P` holds
of, and in the interval none has been lost. -/
structure Covered (P : Source → Prop) (readings : List (Key × Thread V × Reading)) (s t : Usage V) (c : QosClass) :
    Prop where
  read : ∀ key st, t.threads.get? key = some st → st.qos = c →
    ∃ old r u, (key, old, r) ∈ readings ∧ r.result = some (key, st.ticks) ∧ s.threads.get? key = some old ∧
      s.book.current.get? key = some u ∧ u.owner = (st.vm, c) ∧ u.last = old.ticks ∧ P u.mark
  kept : ∀ p ∈ t.book.past, p.1.owner.2 = c → p.2 ≠ s.book.interval

omit [DecidableEq V] in
theorem Covered.strict {P Q : Source → Prop} {readings : List (Key × Thread V × Reading)} {c : QosClass}
    (h : Covered P readings s t c) (hpq : ∀ key u, s.book.current.get? key = some u → P u.mark → Q u.mark) :
    Covered Q readings s t c := by
  refine ⟨?_, h.kept⟩
  intro key st hst hc
  obtain ⟨old, r, u, hmem, hres, hold, hu, howner, hlast, hp⟩ := h.read key st hst hc
  exact ⟨old, r, u, hmem, hres, hold, hu, howner, hlast, hpq key u hu hp⟩

theorem Audited.settle {tally : Tally} (h : Audited tally.ticks s) (hclock : s.sampleEpoch = s.book.interval + 1) :
    Open (s.settle tally) := by
  refine {
    vm := h.vm, tid := h.tid, kept := ⟨h.kept.key, h.kept.forward⟩, live := ?_, dead := h.dead, dated := h.dated
    totals := ?_, lost := ?_, clock := hclock }
  · intro key st hst
    obtain ⟨u, hu, hag⟩ := h.live key st hst
    refine ⟨u, hu, hag.owner, hag.last, ?_⟩
    have hdates := hag.dates
    cases hm : u.mark with
    | registered taken =>
      rw [hm] at hdates
      exact ⟨hdates.1, hdates.2.trans (Nat.le_succ _)⟩
    | sampled taken ended =>
      rw [hm] at hdates
      exact hdates
  · intro c
    have := h.totals c
    simpa [Usage.settle, Book.turn, Book.total] using this
  · intro p hp
    have hle := (h.lost p hp).1
    refine ⟨hle.trans (Nat.le_succ _), fun heq => ?_⟩
    change p.2 = s.book.interval + 1 at heq
    omega

theorem report_spec (cap : Capacity) (h : Open s) (now : ℚ) {readings : List (Key × Thread V × Reading)}
    (hold : ∀ k old r, (k, old, r) ∈ readings → old.readEpoch ≤ s.book.interval) :
    ∃ t classes, s.report cap now readings = some (t, classes) ∧ Open t ∧ t.book.interval = s.book.interval + 1 ∧
      (Strict s.book → (∀ k old r, (k, old, r) ∈ readings → s.threads.get? k = some old → (accepted k old r).isSome →
        r.interval = s.book.interval) → Strict t.book) ∧
      ∀ c, (classes c).complete = true → Covered (Source.Opens s.book.interval) readings s t c := by
  let s₁ : Usage V := { s with lastSample := now, sampleEpoch := s.sampleEpoch + 1 }
  have h₁ : Audited ({} : Tally).ticks s₁ := by
    refine { h.toAudited with dated := ?_ }
    intro key st hst
    exact (h.dated key st hst).trans (Nat.le_succ _)
  obtain ⟨t, tally, ht, hsam⟩ := recordReadings_spec h₁ rfl
    (fun k old r hmem => (hold k old r hmem).trans h.clock.ge)
  have hinterval : t.book.interval = s.book.interval := hsam.clock.interval
  have hepoch : t.sampleEpoch = s.sampleEpoch + 1 := hsam.clock.epoch
  have hclock : t.sampleEpoch = t.book.interval + 1 := by rw [hepoch, hinterval, h.clock]
  refine ⟨t.settle tally, t.classReport cap tally s.sampleEpoch (now - s.lastSample), ?_, hsam.audited.settle hclock,
    ?_, ?_, ?_⟩
  · change (recordReadings s.sampleEpoch s₁ {} readings).map _ = _
    rw [ht]
    rfl
  · change t.book.interval + 1 = _
    rw [hinterval]
  · intro hs htimely
    have hstrict := hsam.strict hs (h.clock ▸ htimely)
    exact ⟨⟨hstrict.once.past, hstrict.once.current⟩, hstrict.prompt⟩
  · intro c hcomplete
    obtain ⟨hmissing, hcrossed, haligned⟩ := (complete_iff cap t tally s.sampleEpoch _ c).1 hcomplete
    constructor
    · intro key st hst hc
      have hst' : t.threads.get? key = some st := hst
      rcases hsam.threads key st hst' with hs | ⟨old, r, hmem, hs, hren, hz⟩
      · have h1 := haligned key st hst' hc
        have h2 := h.dated key st hs
        omega
      · obtain ⟨u, hu, hag⟩ := h.live key old hs
        have hsame : st.vm = old.vm ∧ st.qos = old.qos := by
          rw [hren.state]
          exact ⟨rfl, rfl⟩
        have hread : old.readEpoch = s.book.interval := (hz (hc ▸ hcrossed)).trans h.clock
        refine ⟨old, r, u, hmem, (accepted_some hren.read).1, hs, hu, ?_, hag.last, ?_⟩
        · rw [hag.owner, hsame.1, ← hc, hsame.2]
        · have hdates := hag.dates
          cases hm : u.mark with
          | registered taken =>
            rw [hm, hread] at hdates
            exact le_antisymm hdates.2 hdates.1
          | sampled taken ended =>
            rw [hm, hread] at hdates
            exact hdates.symm
    · intro p hp hc heq
      have hlost := (hsam.audited.lost p hp).2 (heq.trans hinterval.symm)
      rw [hc] at hlost
      simp only [Changes.missing] at hmissing
      omega

def fresh (s : Usage V) (vm : V) (qos : QosClass) (r : Reading) : Bool :=
  match r.result with
  | none => true
  | some (key, ticks) =>
    s.owner key = some (vm, qos) ||
      s.book.tenures.all fun u => decide (u.key = key → u.first < u.last → u.last ≤ ticks)

theorem fresh_iff {vm : V} {qos : QosClass} {r : Reading} : s.fresh vm qos r = true ↔ Fresh s vm qos r := by
  unfold fresh Fresh
  cases hres : r.result with
  | none => simp
  | some found =>
    obtain ⟨key, ticks⟩ := found
    simp only [Bool.or_eq_true, decide_eq_true_eq, List.all_eq_true, Option.some.injEq, Prod.mk.injEq]
    constructor
    · rintro h k i ⟨rfl, rfl⟩
      exact h
    · intro h
      exact h key ticks ⟨rfl, rfl⟩

def timely (s : Usage V) (e : Key × Thread V × Reading) : Bool :=
  s.threads.get? e.1 ≠ some e.2.1 || (accepted e.1 e.2.1 e.2.2).isNone || e.2.2.interval = s.book.interval

end Usage

namespace Calls

variable [DecidableEq V]

/-- No registration enters a reading that what is counted of its thread has overtaken, and no sample records a reading
taken before another sample ended. -/
def upToDate (s : Calls V) : Act V → Bool
  | .enter th =>
    match s.phase th with
    | .registering vm qos _ _ readings => readings.all fun r => s.usage.fresh vm qos r.2
    | _ => true
  | .report th _ =>
    match s.phase th with
    | .sampling _ _ readings => readings.all s.usage.timely
    | _ => true
  | _ => true

def PhaseOk (interval : ℕ) : Phase V → Prop
  | .idle => True
  | .registering _ _ epoch todo readings =>
    epoch ≤ interval ∧ (∀ r ∈ readings, epoch ≤ r.2.interval ∧ r.2.interval ≤ interval) ∧
      (∀ r ∈ readings, ∀ key ticks, r.2.result = some (key, ticks) → key.1 = r.1) ∧
      (readings.map Prod.fst ++ todo).Nodup
  | .sampling _ todo readings =>
    (∀ e ∈ todo, e.2.readEpoch ≤ interval) ∧ ∀ key old r, (key, old, r) ∈ readings → old.readEpoch ≤ interval

omit [DecidableEq V] in
theorem PhaseOk.mono {i j : ℕ} (hij : i ≤ j) {p : Phase V} (h : PhaseOk i p) : PhaseOk j p := by
  cases p with
  | idle => trivial
  | registering vm qos epoch todo readings =>
    obtain ⟨he, hr, hkeys, hnodup⟩ := h
    exact ⟨he.trans hij, fun r hmem => ⟨(hr r hmem).1, (hr r hmem).2.trans hij⟩, hkeys, hnodup⟩
  | sampling started todo readings =>
    exact ⟨fun e he => (h.1 e he).trans hij, fun key old r hmem => (h.2 key old r hmem).trans hij⟩

structure Sound (s : Calls V) : Prop where
  usage : s.usage.Open
  phase : ∀ th, PhaseOk s.usage.book.interval (s.phase th)

theorem Sound.setPhase {s : Calls V} (h : Sound s) (th : ℕ) {p : Phase V} (hp : PhaseOk s.usage.book.interval p) :
    Sound (s.setPhase th p) := by
  refine ⟨h.usage, ?_⟩
  intro u
  simp only [Calls.setPhase, Function.update_apply]
  split_ifs
  · exact hp
  · exact h.phase u

theorem Sound.setUsage {s : Calls V} (h : Sound s) (th : ℕ) {t : Usage V} (ht : t.Open)
    (hle : s.usage.book.interval ≤ t.book.interval) : Sound (({ s with usage := t } : Calls V).setPhase th .idle) := by
  have hmove : Sound ({ s with usage := t } : Calls V) := ⟨ht, fun u => (h.phase u).mono hle⟩
  exact hmove.setPhase th trivial

omit [DecidableEq V] in
theorem readStat_tid {tid : ℤ} {stat : Option Fields.Text} {key : Key} {ticks : ℤ}
    (h : readStat tid stat = some (key, ticks)) : key.1 = tid := by
  unfold readStat at h
  simp only [Option.bind_eq_bind, Option.bind_eq_some_iff] at h
  obtain ⟨_, _, _, _, _, _, _, _, _, _, heq⟩ := h
  simp only [Option.some.injEq, Prod.mk.injEq] at heq
  rw [← heq.1]

structure StepOk (s t : Calls V) (l : Act V × Event) : Prop where
  sound : Sound t
  quiet : l.2 ≠ .raised
  strict : Strict s.usage.book → s.upToDate l.1 = true → Strict t.usage.book
  covered : ∀ th now elapsed readSeconds classes, l = (.report th now, .reported elapsed readSeconds classes) →
    ∃ started readings, s.phase th = .sampling started [] readings ∧ ∀ c, (classes c).complete = true →
      Usage.Covered (Source.Opens s.usage.book.interval) readings s.usage t.usage c

theorem Sound.moves {s : Calls V} (h : Sound s) {th : ℕ} {p : Phase V} (hp : PhaseOk s.usage.book.interval p)
    {a : Act V} {o : Event} (ho : o ≠ .raised) (hrep : ∀ el rs classes, o ≠ .reported el rs classes) :
    StepOk s (s.setPhase th p) (a, o) := by
  refine ⟨h.setPhase th hp, ho, fun hs _ => hs, ?_⟩
  intro _ _ el rs classes heq
  exact absurd (congrArg Prod.snd heq) (hrep el rs classes)

theorem Sound.step (cap : Capacity) {s t : Calls V} {a : Act V} {o : Event} (h : Sound s)
    (hn : next cap s a = some (t, o)) : StepOk s t (a, o) := by
  cases a with
  | register th vm qosClass tids order =>
    simp only [next] at hn
    split at hn
    · split at hn
      · cases hn
        exact ⟨h, by simp, fun hs _ => hs, by simp⟩
      · split_ifs at hn with hperm
        cases hn
        have hnodup : order.Nodup := hperm.nodup_iff.2 (List.nodup_dedup tids)
        apply h.moves ?_ (by simp) (by simp)
        exact ⟨h.usage.clock.le, by simp, by simp, by simpa using hnodup⟩
    · cases hn
  | readTid th stat =>
    simp only [next] at hn
    split at hn
    · rename_i vm qos epoch tid todo readings hphase
      cases hn
      have hok := h.phase th
      rw [hphase] at hok
      obtain ⟨he, hr, hkeys, hnodup⟩ := hok
      apply h.moves ?_ (by simp) (by simp)
      refine ⟨he, ?_, ?_, by simpa using hnodup⟩
      · intro r hmem
        rcases List.mem_append.1 hmem with hmem | hmem
        · exact hr r hmem
        · rw [List.mem_singleton.1 hmem]
          exact ⟨he, le_refl _⟩
      · intro r hmem key ticks hres
        rcases List.mem_append.1 hmem with hmem | hmem
        · exact hkeys r hmem key ticks hres
        · rw [List.mem_singleton.1 hmem] at hres ⊢
          exact readStat_tid hres
    · cases hn
  | enter th =>
    simp only [next] at hn
    split at hn
    · rename_i vm qos epoch readings hphase
      have hok := h.phase th
      rw [hphase] at hok
      obtain ⟨_, hr, hkeys, hnodup⟩ := hok
      rw [List.append_nil] at hnodup
      obtain ⟨u, hu, hopen, hclock, hstrict⟩ := Usage.enter_spec h.usage hr hkeys hnodup
      rw [hu] at hn
      cases hn
      refine ⟨h.setUsage th hopen hclock.interval.ge, by simp, ?_, by simp⟩
      intro hs hfresh
      simp only [upToDate, hphase, List.all_eq_true] at hfresh
      exact hstrict hs fun r hmem => Usage.fresh_iff.1 (hfresh r hmem)
    · cases hn
  | sample th now =>
    simp only [next] at hn
    split at hn
    · cases hn
      apply h.moves ?_ (by simp) (by simp)
      refine ⟨?_, by simp⟩
      intro e he
      exact (h.usage.dated e.1 e.2 (PyDict.get?_eq_some.2 he)).trans h.usage.clock.le
    · cases hn
  | readKey th stat =>
    simp only [next] at hn
    split at hn
    · rename_i started key state todo readings hphase
      cases hn
      have hok := h.phase th
      rw [hphase] at hok
      apply h.moves ?_ (by simp) (by simp)
      refine ⟨fun e he => hok.1 e (List.mem_cons_of_mem _ he), ?_⟩
      intro k old r hmem
      rcases List.mem_append.1 hmem with hmem | hmem
      · exact hok.2 k old r hmem
      · cases List.mem_singleton.1 hmem
        exact hok.1 (key, state) List.mem_cons_self
    · cases hn
  | report th now =>
    simp only [next] at hn
    split at hn
    · rename_i started readings hphase
      have hok := h.phase th
      rw [hphase] at hok
      obtain ⟨u, classes, hu, hopen, hinterval, hstrict, hcovered⟩ := Usage.report_spec cap h.usage now hok.2
      rw [hu] at hn
      cases hn
      refine ⟨h.setUsage th hopen (by omega), by simp, ?_, ?_⟩
      · intro hs htimely
        simp only [upToDate, hphase, List.all_eq_true] at htimely
        apply hstrict hs
        intro k old r hmem hk hacc
        have := htimely (k, old, r) hmem
        obtain ⟨ticks, hticks⟩ := Option.isSome_iff_exists.1 hacc
        simpa [Usage.timely, hk, hticks] using this
      · intro th' now' el rs cls heq
        simp only [Prod.mk.injEq, Act.report.injEq, Event.reported.injEq] at heq
        obtain ⟨⟨rfl, rfl⟩, -, -, rfl⟩ := heq
        exact ⟨started, readings, hphase, hcovered⟩
    · cases hn

theorem Sound.reachable (cap : Capacity) {s : Calls V} (h : Reachable (system cap) s) : Sound s := by
  apply h.invariant
  · rintro _ ⟨now, rfl⟩
    refine ⟨?_, fun _ => trivial⟩
    exact {
      vm := by simp [Usage.vmSet], tid := by simp, kept := ⟨by simp, by simp [Book.tenures, PyDict.mem_values]⟩
      live := by simp, dead := by simp, dated := by simp, totals := fun c => rfl, lost := by simp, clock := rfl }
  · rintro u ⟨a, o⟩ v hu hn
    exact (hu.step cap hn).sound

theorem strict_reachable (cap : Capacity) {s : Calls V}
    (h : Reachable ((system cap).restrict fun s l => s.upToDate l.1 = true) s) : Sound s ∧ Strict s.usage.book := by
  apply h.invariant
  · intro u hu
    refine ⟨Sound.reachable cap (.start hu), ?_⟩
    obtain ⟨now, rfl⟩ := hu
    exact ⟨⟨List.Pairwise.nil, by simp⟩, by simp⟩
  · rintro u ⟨a, o⟩ v ⟨hu, hs⟩ ⟨hn, hok⟩
    have hstep := hu.step cap hn
    exact ⟨hstep.sound, hstep.strict hs hok⟩

/-- The indexes and the totals of the usage sampler in every run; and in the runs whose registrations and samples are
up to date, each tick is counted once and a complete class is measured from one sample to the next. -/
theorem usage_accounting (cap : Capacity) :
    (∀ s : Calls V, Reachable (system cap) s →
      s.usage.Indexed ∧ (∀ c, s.usage.totalTicks c = s.usage.book.total fun o => o.2 = c) ∧
      (∀ u ∈ s.usage.book.tenures, u.first ≤ u.last) ∧
      ∀ a t o, next cap s a = some (t, o) → o ≠ .raised ∧
        ∀ th now elapsed readSeconds classes, a = .report th now → o = .reported elapsed readSeconds classes →
          ∃ started readings, s.phase th = .sampling started [] readings ∧ ∀ c, (classes c).complete = true →
            Usage.Covered (Source.Opens s.usage.book.interval) readings s.usage t.usage c) ∧
    (∀ s : Calls V, Reachable ((system cap).restrict fun s l => s.upToDate l.1 = true) s →
      (s.usage.book.tenures.Pairwise fun p q => p.key = q.key → ∀ n, ¬ (p.Counts n ∧ q.Counts n)) ∧
      ∀ th now t elapsed readSeconds classes,
        next cap s (.report th now) = some (t, .reported elapsed readSeconds classes) →
        ∃ started readings, s.phase th = .sampling started [] readings ∧ ∀ c, (classes c).complete = true →
          Usage.Covered (Source.TakenFor s.usage.book.interval) readings s.usage t.usage c) := by
  refine ⟨?_, ?_⟩
  · intro s hs
    have hsound := Sound.reachable cap hs
    refine ⟨hsound.usage.toIndexed, ?_, hsound.usage.kept.forward, ?_⟩
    · intro c
      have := hsound.usage.totals c
      rwa [add_zero] at this
    · intro a t o hn
      have hstep := hsound.step cap hn
      refine ⟨hstep.quiet, ?_⟩
      rintro th now el rs classes rfl rfl
      exact hstep.covered th now el rs classes rfl
  · intro s hs
    obtain ⟨hsound, hstrict⟩ := strict_reachable cap hs
    refine ⟨hstrict.once.apart hsound.usage.kept, ?_⟩
    intro th now t el rs classes hn
    obtain ⟨started, readings, hphase, hcov⟩ := (hsound.step cap hn).covered th now el rs classes rfl
    refine ⟨started, readings, hphase, ?_⟩
    intro c hc
    exact (hcov c hc).strict fun key u hu ho => hstrict.takenFor hu ho

def Event.completes (c : QosClass) : Event → Bool
  | .reported _ _ classes => (classes c).complete
  | _ => false

def exampleCapacity : Capacity := ⟨4, 100, by decide, by decide⟩

def statText (user : String) : Option Fields.Text :=
  some ("5 (CPU 0/KVM) R 0 0 0 0 0 0 0 0 0 0 " ++ user ++ " 0 0 0 0 0 0 0 100").toList

def exampleStart : Calls ℕ := ⟨{ lastSample := 0 }, fun _ => .idle⟩

-- a thread is read for its VM and sampled once
def sampledOnce : List (Act ℕ) :=
  [.register 0 1 "ls" [5] [5], .readTid 0 (statText "10"), .enter 0, .sample 0 1, .readKey 0 (statText "30")]

theorem usage_accounting_sampled :
    let s := (trace (guarded upToDate (next exampleCapacity)) exampleStart sampledOnce).1
    ∃ t o, next exampleCapacity s (.report 0 2) = some (t, o) ∧ Event.completes .ls o = true ∧
      t.usage.totalTicks .ls = 20 ∧
      s.usage.book.tenures.Pairwise fun p q => p.key = q.key → ∀ n, ¬ (p.Counts n ∧ q.Counts n) := by
  intro s
  have hs : Reachable ((system exampleCapacity).restrict fun s l => s.upToDate l.1 = true) s :=
    ⟨exampleStart, _, ⟨0, rfl⟩, run_guarded Start (next exampleCapacity) upToDate _ _⟩
  have hn : ((next exampleCapacity s (.report 0 2)).any fun r => Event.completes .ls r.2 && r.1.usage.totalTicks .ls =
      20) =
      true := by decide +kernel
  cases ht : next exampleCapacity s (.report 0 2) with
  | none =>
    rw [ht] at hn
    cases hn
  | some r =>
    simp only [ht, Option.any_some, Bool.and_eq_true, decide_eq_true_eq] at hn
    exact ⟨r.1, r.2, rfl, hn.1, hn.2, ((usage_accounting exampleCapacity).2 s hs).1⟩

-- a registration that has read its thread early comes after a sample that has counted further
def overtaken : List (Act ℕ) :=
  [.register 0 1 "ls" [5] [5], .readTid 0 (statText "10"), .enter 0,
    .register 1 2 "be" [5] [5], .readTid 1 (statText "15"),
    .sample 2 1, .readKey 2 (statText "30"), .report 2 2, .enter 1,
    .sample 2 3, .readKey 2 (statText "40"), .report 2 4]

-- a sample that has read its thread before another one ended comes after it, and a third one follows
def overlapped : List (Act ℕ) :=
  [.sample 0 1, .register 1 1 "ls" [5] [5], .readTid 1 (statText "10"), .enter 1,
    .sample 2 2, .readKey 2 (statText "20"), .report 0 3, .report 2 4, .sample 3 5, .readKey 3 (statText "30")]

theorem tick_counted_twice :
    (∃ s : Calls ℕ, Reachable (system exampleCapacity) s ∧ s.usage.totalTicks .ls = 20 ∧ s.usage.totalTicks .be = 25 ∧
      ¬ s.usage.book.tenures.Pairwise fun p q => p.key = q.key → ∀ n, ¬ (p.Counts n ∧ q.Counts n)) ∧
    ∃ s t : Calls ℕ, ∃ o u, Reachable (system exampleCapacity) s ∧
      next exampleCapacity s (.report 3 6) = some (t, o) ∧ Event.completes .ls o = true ∧
      s.usage.book.current.get? (5, 100) = some u ∧ ¬ u.mark.TakenFor s.usage.book.interval := by
  refine ⟨?_, ?_⟩
  · refine ⟨(trace (next exampleCapacity) exampleStart overtaken).1,
      ⟨exampleStart, _, ⟨0, rfl⟩, run_trace Start (next exampleCapacity) _ _⟩, by decide +kernel, by decide +kernel, ?_⟩
    intro hp
    have htenures : ((trace (next exampleCapacity) exampleStart overtaken).1.usage.book.tenures.map fun u =>
        (u.key, u.first, u.last)) = [((5, 100), 10, 30), ((5, 100), 15, 40)] := by decide +kernel
    have hpairs : ([((5, 100), 10, 30), ((5, 100), 15, 40)] : List (Key × ℤ × ℤ)).Pairwise fun p q =>
        p.1 = q.1 → ∀ n, ¬ ((p.2.1 < n ∧ n ≤ p.2.2) ∧ q.2.1 < n ∧ n ≤ q.2.2) := by
      rw [← htenures, List.pairwise_map]
      exact hp
    have hboth := (List.pairwise_cons.1 hpairs).1 ((5, 100), 15, 40) (by simp) rfl 20
    exact hboth (by decide)
  · have hs : Reachable (system exampleCapacity) (trace (next exampleCapacity) exampleStart overlapped).1 :=
      ⟨exampleStart, _, ⟨0, rfl⟩, run_trace Start (next exampleCapacity) _ _⟩
    have hn : ((next exampleCapacity (trace (next exampleCapacity) exampleStart overlapped).1 (.report 3 6)).any
        fun r => Event.completes .ls r.2) = true := by decide +kernel
    have hmark : ((trace (next exampleCapacity) exampleStart overlapped).1.usage.book.current.get? (5, 100)).map
        Tenure.mark = some (.sampled 0 1) := by decide +kernel
    have hinterval : (trace (next exampleCapacity) exampleStart overlapped).1.usage.book.interval = 2 := by
      decide +kernel
    obtain ⟨u, hu, hm⟩ := Option.map_eq_some_iff.1 hmark
    cases ht : next exampleCapacity (trace (next exampleCapacity) exampleStart overlapped).1 (.report 3 6) with
    | none =>
      rw [ht] at hn
      cases hn
    | some r =>
      rw [ht, Option.any_some] at hn
      refine ⟨_, r.1, r.2, u, hs, ht, hn, hu, ?_⟩
      rw [hm, hinterval]
      simp [Source.TakenFor]

end Calls

end ClawBox.Qos
