import ClawBox.Collector.Bridge
import Mathlib.Data.List.Chain
import Mathlib.Data.List.Induction
import Mathlib.Order.Bounds.Basic

namespace ClawBox.Collector

open Fields Transition

def Near (a b : ℤ) : Prop := a ≤ b ∧ b - a ≤ maxGap

def inWindow (started tsEnd : ℤ) (samples : List EnvironmentMemorySample) : List EnvironmentMemorySample :=
  samples.filter (fun s => decide (started < s.takenAt ∧ s.takenAt ≤ tsEnd))

theorem window_spec (started tsEnd : ℤ) (samples : List EnvironmentMemorySample) :
    (samples.foldl (Window.next started tsEnd) ⟨none, [], started, false⟩).baseline =
        (samples.filter (fun s => decide (s.takenAt ≤ started))).getLast? ∧
      (samples.foldl (Window.next started tsEnd) ⟨none, [], started, false⟩).inside = inWindow started tsEnd samples ∧
      some (samples.foldl (Window.next started tsEnd) ⟨none, [], started, false⟩).previous =
        (started :: (inWindow started tsEnd samples).map EnvironmentMemorySample.takenAt).getLast? ∧
      ((samples.foldl (Window.next started tsEnd) ⟨none, [], started, false⟩).gap = false ↔
        (started :: (inWindow started tsEnd samples).map EnvironmentMemorySample.takenAt).IsChain Near) := by
  induction samples using List.reverseRecOn with
  | nil => simp [inWindow]
  | append_singleton samples sample ih =>
    rw [List.foldl_append, List.foldl_cons, List.foldl_nil]
    generalize samples.foldl (Window.next started tsEnd) ⟨none, [], started, false⟩ = w at ih ⊢
    obtain ⟨hbase, hinside, hprev, hgap⟩ := ih
    simp only [inWindow] at hinside hprev hgap ⊢
    unfold Window.next
    split_ifs with hle hend
    · have hnot : ¬ started < sample.takenAt := by omega
      simp [List.filter_append, hle, hnot, hinside, hprev, hgap]
    · have hin : started < sample.takenAt := by omega
      refine ⟨by simp [List.filter_append, hle, hbase], by simp [List.filter_append, hin, hend, hinside], ?_, ?_⟩
      · rw [List.filter_append, List.map_append, ← List.cons_append, List.getLast?_append]
        simp [hin, hend]
      · rw [List.filter_append, List.map_append, ← List.cons_append, List.isChain_append, ← hprev, ← hgap]
        simp only [Near, hin, hend, and_self, decide_true, List.filter_cons_of_pos, List.filter_nil, List.map_cons,
          List.map_nil, List.isChain_singleton, Option.mem_some_iff, List.head?_cons, Bool.or_eq_false_iff,
          decide_eq_false_iff_not, true_and, forall_eq']
        constructor
        · rintro ⟨hg, hn⟩
          exact ⟨hg, by omega⟩
        · rintro ⟨hg, hn⟩
          exact ⟨hg, by omega⟩
    · simp [List.filter_append, hle, hend, hbase, hinside, hprev, hgap]

theorem sorted_split {l : List EnvironmentMemorySample} (h : l.Pairwise (fun a b => a.takenAt ≤ b.takenAt)) (c : ℤ) :
    l = l.filter (fun s => decide (s.takenAt ≤ c)) ++ l.filter (fun s => decide (c < s.takenAt)) := by
  induction l with
  | nil => rfl
  | cons s l ih =>
    rw [List.pairwise_cons] at h
    by_cases hs : s.takenAt ≤ c
    · have hnot : ¬ c < s.takenAt := by omega
      simp only [List.filter_cons, hs, hnot, decide_true, decide_false, if_true, Bool.false_eq_true, if_false,
        List.cons_append]
      rw [← ih h.2]
    · have hall : ∀ x ∈ s :: l, c < x.takenAt := by
        intro x hx
        cases List.mem_cons.1 hx with
        | inl hx =>
          rw [hx]
          omega
        | inr hx =>
          have := h.1 x hx
          omega
      rw [List.filter_eq_nil_iff.2 (by intro x hx; have := hall x hx; simpa using this),
        List.filter_eq_self.2 (by intro x hx; simpa using hall x hx), List.nil_append]

theorem peakBytes_spec (first : EnvironmentMemorySample) (rest : List EnvironmentMemorySample) :
    IsGreatest {b | ∃ s ∈ first :: rest, s.bytes = b} (peakBytes first rest) := by
  induction rest using List.reverseRecOn with
  | nil => simp [peakBytes, IsGreatest, upperBounds]
  | append_singleton rest s ih =>
    have hnext : peakBytes first (rest ++ [s]) = if s.bytes > peakBytes first rest then s.bytes else peakBytes first
        rest := by
      simp [peakBytes]
    obtain ⟨⟨m, hm, hmb⟩, hup⟩ := ih
    have hup' : ∀ x ∈ first :: rest, x.bytes ≤ peakBytes first rest := fun x hx => hup ⟨x, hx, rfl⟩
    rw [hnext]
    constructor
    · split_ifs
      · exact ⟨s, by simp, rfl⟩
      · exact ⟨m, by rw [← List.cons_append]; exact List.mem_append_left _ hm, hmb⟩
    · rintro b ⟨x, hx, rfl⟩
      rw [← List.cons_append, List.mem_append, List.mem_singleton] at hx
      cases hx with
      | inl hx =>
        have := hup' x hx
        split_ifs <;> omega
      | inr hx =>
        rw [hx]
        split_ifs <;> omega

/-- What the samples must say for a label of an execution with this baseline sample. -/
structure Supports (samples : List EnvironmentMemorySample) (started tsEnd : ℤ) (baseline : EnvironmentMemorySample)
    (label : MemoryLabel) : Prop where
  last : ∃ before after, samples = before ++ baseline :: after ∧ (∀ s ∈ before, s.takenAt ≤ baseline.takenAt) ∧
    ∀ s ∈ after, started < s.takenAt
  fresh : baseline.takenAt ≤ started ∧ started - baseline.takenAt ≤ maxGap
  dense : (started :: (inWindow started tsEnd samples).map EnvironmentMemorySample.takenAt ++ [tsEnd]).IsChain Near
  peak : IsGreatest {b | ∃ s ∈ inWindow started tsEnd samples, s.bytes = b} label.totalPeakBytes
  bytes : label.baselineBytes = baseline.bytes
  extra : label.extraPeakBytes = max 0 (label.totalPeakBytes - baseline.bytes)

theorem eligible_cases {c : ResourceCollector} {overlapped : Bool} {tsEnd : ℤ}
    (h : (c.memoryLabel overlapped tsEnd).eligible = true) :
    overlapped = false ∧ ∃ started baseline first rest,
      c.executionStarted = some started ∧
      (c.environmentSamples.filter (fun s => decide (s.takenAt ≤ started))).getLast? = some baseline ∧
      started - baseline.takenAt ≤ maxGap ∧
      inWindow started tsEnd c.environmentSamples = first :: rest ∧
      (started :: (first :: rest).map EnvironmentMemorySample.takenAt).IsChain Near ∧
      tsEnd - ((first :: rest).getLast (by simp)).takenAt ≤ maxGap ∧
      c.memoryLabel overlapped tsEnd =
        { baselineBytes := baseline.bytes
          totalPeakBytes := peakBytes first rest
          extraPeakBytes := if peakBytes first rest > baseline.bytes then peakBytes first rest - baseline.bytes else 0
          eligible := true
          timeline := baseline :: first :: rest } := by
  revert h
  unfold ResourceCollector.memoryLabel
  split_ifs with hover htrunc
  · simp
  · simp
  · cases hstarted : c.executionStarted with
    | none => simp
    | some started =>
      simp only
      obtain ⟨hbase, hinside, -, hgap⟩ := window_spec started tsEnd c.environmentSamples
      generalize c.environmentSamples.foldl (Window.next started tsEnd) ⟨none, [], started, false⟩ =
        w at hbase hinside hgap ⊢
      cases hb : w.baseline with
      | none => simp
      | some baseline =>
        simp only
        split_ifs with hstale
        · simp
        · cases hin : w.inside with
          | nil => simp
          | cons first rest =>
            simp only
            by_cases hbad : (w.gap || decide (tsEnd - ((first :: rest).getLast (by simp)).takenAt > maxGap)) = true
            · rw [if_pos hbad]
              simp
            · rw [if_neg hbad]
              intro _
              rw [Bool.or_eq_true, not_or, Bool.not_eq_true, decide_eq_true_eq] at hbad
              have hwin : inWindow started tsEnd c.environmentSamples = first :: rest := by rw [← hinside, hin]
              refine ⟨by simpa using hover, started, baseline, first, rest, rfl, by rw [← hbase, hb], by omega, hwin,
                ?_, by omega, rfl⟩
              rw [← hwin]
              exact hgap.1 hbad.1

theorem supports_of_eligible {c : ResourceCollector} {overlapped : Bool} {tsEnd : ℤ}
    (hsorted : c.environmentSamples.Pairwise (fun a b => a.takenAt ≤ b.takenAt))
    (h : (c.memoryLabel overlapped tsEnd).eligible = true) :
    overlapped = false ∧ ∃ started baseline, c.executionStarted = some started ∧
      Supports c.environmentSamples started tsEnd baseline (c.memoryLabel overlapped tsEnd) := by
  obtain ⟨hover, started, baseline, first, rest, hstarted, hbase, hfresh, hwin, hchain, hend, hlabel⟩ :=
    eligible_cases h
  obtain ⟨before, hbefore⟩ := List.getLast?_eq_some_iff.1 hbase
  have hmem : baseline ∈ c.environmentSamples.filter (fun s => decide (s.takenAt ≤ started)) := by simp [hbefore]
  have hsplit := sorted_split hsorted started
  rw [hbefore, List.append_assoc, List.singleton_append] at hsplit
  refine ⟨hover, started, baseline, hstarted, ⟨before, _, hsplit, ?_, ?_⟩, ?_, ?_, ?_, ?_, ?_⟩
  · intro s hs
    rw [hsplit, List.pairwise_append] at hsorted
    exact hsorted.2.2 s hs baseline List.mem_cons_self
  · intro s hs
    simpa using (List.mem_filter.1 hs).2
  · exact ⟨by simpa using (List.mem_filter.1 hmem).2, hfresh⟩
  · rw [hwin, List.isChain_append]
    refine ⟨hchain, List.isChain_singleton _, ?_⟩
    intro x hx y hy
    have hlast : (first :: rest).getLast (by simp) ∈ inWindow started tsEnd c.environmentSamples := by
      rw [hwin]
      exact List.getLast_mem _
    have hwindow : ((first :: rest).getLast (by simp)).takenAt ≤ tsEnd := by
      have := (List.mem_filter.1 hlast).2
      rw [decide_eq_true_eq] at this
      exact this.2
    rw [List.getLast?_cons, List.getLast?_map, List.getLast?_eq_getLast_of_ne_nil (by simp)] at hx
    simp only [Option.map_some, Option.getD_some, Option.mem_some_iff] at hx
    simp only [List.head?_cons, Option.mem_some_iff] at hy
    rw [← hx, ← hy]
    exact ⟨hwindow, hend⟩
  · rw [hlabel, hwin]
    exact peakBytes_spec first rest
  · rw [hlabel]
  · rw [hlabel]
    simp only
    split_ifs <;> omega

variable {ι κ : Type*} [DecidableEq ι] [DecidableEq κ] {execID : ι → κ}

theorem get?_register_self (active : PyDict κ Bool) (e : κ) :
    (registerEnvironmentCall active e).get? e = some (decide (active.entries ≠ [])) := by
  simp [registerEnvironmentCall]

theorem get?_register_ne (active : PyDict κ Bool) {e x : κ} (h : x ≠ e) :
    (registerEnvironmentCall active e).get? x = (active.get? x).map (fun _ => true) := by
  simp only [registerEnvironmentCall, PyDict.get?_set_ne _ _ h]
  by_cases hnil : active.entries = []
  · simp [PyDict.get?, hnil]
  · simp [hnil, PyDict.get?_mapValues]

theorem entries_ne_nil {active : PyDict κ Bool} {x : κ} (h : active.get? x ≠ none) : active.entries ≠ [] := by
  intro hnil
  apply h
  simp [PyDict.get?, hnil]

inductive Moves (execID : ι → κ) (s : Bridge ι κ) (t : Bridge ι κ) : Action ι → Prop
  | same {a : Action ι} (hactive : t.active = s.active) (hreg : ∀ j, t.Registered j ↔ s.Registered j) :
    Moves execID s t a
  | register (i : ι) (hphase : (s.calls i).phase = .baselined)
      (hactive : t.active = registerEnvironmentCall s.active (execID i))
      (hreg : ∀ j, t.Registered j ↔ j = i ∨ s.Registered j) : Moves execID s t (.register i)
  | leave (i : ι) (hphase : s.Registered i) (hactive : t.active = s.active.pop (execID i))
      (hreg : ∀ j, t.Registered j ↔ s.Registered j ∧ j ≠ i) : Moves execID s t (.leave i)

omit [DecidableEq κ] in
theorem registered_put (s : Bridge ι κ) (i j : ι) (c : Call) :
    (s.put i c).Registered j ↔ if j = i then c.phase.isRegistered = true else s.Registered j := by
  simp only [Bridge.Registered, Bridge.put, Function.update_apply]
  split_ifs <;> rfl

omit [DecidableEq κ] in
theorem registered_put_same {s : Bridge ι κ} {i : ι} {c : Call}
    (h : c.phase.isRegistered = (s.calls i).phase.isRegistered) (j : ι) :
    (s.put i c).Registered j ↔ s.Registered j := by
  rw [registered_put]
  split_ifs with hj
  · rw [hj, h, Bridge.Registered]
  · rfl

theorem next_moves {s t : Bridge ι κ} {a : Action ι} {e : Option MemoryLabel} (h : next execID s a = some (t, e)) :
    Moves execID s t a := by
  cases a with
  | tick d =>
    cases h
    exact .same rfl (fun _ => Iff.rfl)
  | baseline i intervalMS path setupError pids meminfo =>
    simp only [next] at h
    split_ifs at h with hp
    cases h
    exact .same rfl (registered_put_same (by rw [hp]; rfl))
  | register i =>
    simp only [next] at h
    split_ifs at h with hp
    cases h
    refine .register i hp rfl ?_
    intro j
    refine (registered_put s i j _).trans ?_
    by_cases hj : j = i <;> simp [hj, Phase.isRegistered]
  | sample i pids meminfo =>
    simp only [next] at h
    split_ifs at h with hp
    cases h
    exact .same rfl (registered_put_same rfl)
  | begin i =>
    simp only [next] at h
    split_ifs at h with hp
    cases h
    exact .same rfl (registered_put_same (by rw [hp]; rfl))
  | mark i =>
    simp only [next] at h
    split_ifs at h with hp
    cases h
    exact .same rfl (registered_put_same (by rw [hp]; rfl))
  | stop i =>
    simp only [next] at h
    split_ifs at h with hp
    cases h
    exact .same rfl (registered_put_same (by rw [hp]; rfl))
  | leave i =>
    simp only [next] at h
    split_ifs at h with hp
    cases h
    refine .leave i (by rw [Bridge.Registered, hp]; rfl) rfl ?_
    intro j
    refine (registered_put s i j _).trans ?_
    by_cases hj : j = i <;> simp [hj, Phase.isRegistered]
  | decide i =>
    simp only [next] at h
    split_ifs at h with hp
    cases h
    exact .same rfl (registered_put_same (by rw [hp]; rfl))

structure Bridge.Sound (execID : ι → κ) (s : Bridge ι κ) : Prop where
  listed : ∀ i, s.Registered i → s.active.get? (execID i) ≠ none
  apart : ∀ i j, s.Registered i → s.Registered j → execID i = execID j → i = j
  overlaps : ∀ i j, i ≠ j → s.Registered i → s.Registered j → s.active.get? (execID i) = some true

omit [DecidableEq ι] in
theorem Bridge.Sound.start {s : Bridge ι κ} (h : Start s) : s.Sound execID := by
  have hnone : ∀ i, ¬ s.Registered i := by
    intro i
    rw [Bridge.Registered, h.2 i]
    decide
  exact ⟨fun i hi => absurd hi (hnone i), fun i _ hi => absurd hi (hnone i), fun i _ _ hi => absurd hi (hnone i)⟩

omit [DecidableEq ι] in
theorem Bridge.Sound.register {s t : Bridge ι κ} {i : ι} (h : s.Sound execID) (hnew : s.active.get? (execID i) = none)
    (hactive : t.active = registerEnvironmentCall s.active (execID i))
    (hreg : ∀ j, t.Registered j ↔ j = i ∨ s.Registered j) :
    t.Sound execID := by
  have hne : ∀ j, s.Registered j → execID j ≠ execID i := by
    intro j hj heq
    exact h.listed j hj (heq ▸ hnew)
  have hold : ∀ j, s.Registered j → t.active.get? (execID j) = some true := by
    intro j hj
    obtain ⟨b, hb⟩ := Option.ne_none_iff_exists'.1 (h.listed j hj)
    rw [hactive, get?_register_ne _ (hne j hj), hb]
    rfl
  have hown : t.active.get? (execID i) = some (decide (s.active.entries ≠ [])) := by rw [hactive, get?_register_self]
  refine ⟨?_, ?_, ?_⟩
  · intro j hj
    cases (hreg j).1 hj with
    | inl hji => simp [hji, hown]
    | inr hj => simp [hold j hj]
  · intro j k hj hk heq
    cases (hreg j).1 hj with
    | inl hji =>
      cases (hreg k).1 hk with
      | inl hki => rw [hji, hki]
      | inr hk => exact absurd (hji ▸ heq.symm) (hne k hk)
    | inr hj =>
      cases (hreg k).1 hk with
      | inl hki => exact absurd (hki ▸ heq) (hne j hj)
      | inr hk => exact h.apart j k hj hk heq
  · intro j k hjk hj hk
    cases (hreg j).1 hj with
    | inr hj => exact hold j hj
    | inl hji =>
      cases (hreg k).1 hk with
      | inl hki => exact absurd (hji.trans hki.symm) hjk
      | inr hk =>
        have := entries_ne_nil (h.listed k hk)
        rw [hji, hown, decide_eq_true this]

theorem Bridge.Sound.step {s t : Bridge ι κ} {a : Action ι} {e : Option MemoryLabel} (h : s.Sound execID)
    (hs : next execID s a = some (t, e)) (ho : Orderly execID s a) : t.Sound execID := by
  cases next_moves hs with
  | same hactive hreg =>
    refine ⟨?_, ?_, ?_⟩
    · intro i hi
      rw [hactive]
      exact h.listed i ((hreg i).1 hi)
    · intro i j hi hj
      exact h.apart i j ((hreg i).1 hi) ((hreg j).1 hj)
    · intro i j hne hi hj
      rw [hactive]
      exact h.overlaps i j hne ((hreg i).1 hi) ((hreg j).1 hj)
  | register i _ hactive hreg => exact h.register ho hactive hreg
  | leave i hi hactive hreg =>
    have hkeep : ∀ j, t.Registered j → t.active.get? (execID j) = s.active.get? (execID j) := by
      intro j hj
      obtain ⟨hj, hne⟩ := (hreg j).1 hj
      rw [hactive]
      exact PyDict.get?_pop_ne _ (fun heq => hne (h.apart j i hj hi heq))
    refine ⟨?_, ?_, ?_⟩
    · intro j hj
      rw [hkeep j hj]
      exact h.listed j ((hreg j).1 hj).1
    · intro j k hj hk
      exact h.apart j k ((hreg j).1 hj).1 ((hreg k).1 hk).1
    · intro j k hne hj hk
      rw [hkeep j hj]
      exact h.overlaps j k hne ((hreg j).1 hj).1 ((hreg k).1 hk).1

inductive Call.Becomes (now : ℤ) (c : Call) : Call → Prop
  | same : Becomes now c c
  | baseline (intervalMS : ℤ) (path : Text) (setupError : String) (pids : List ProcFiles) (meminfo : Option Text)
      (hphase : c.phase = .idle) :
      Becomes now c { c with
        phase := .baselined
        collector := (startResourceCollectorPrepared intervalMS path setupError).scanProcessTree pids now meminfo }
  | register (hphase : c.phase = .baselined) : Becomes now c { c with phase := .registered }
  | sample (pids : List ProcFiles) (meminfo : Option Text) :
      Becomes now c { c with collector := c.collector.scanProcessTree pids now meminfo }
  | begin (hphase : c.phase = .registered) : Becomes now c { c with phase := .begun, started := now }
  | mark (hphase : c.phase = .begun) :
      Becomes now c { c with phase := .marked, collector := c.collector.markExecutionStart c.started }
  | stop (hphase : c.phase = .marked) : Becomes now c { c with phase := .ended, tsEnd := now }
  | leave (overlapped : Bool) (hphase : c.phase = .ended) :
    Becomes now c { c with phase := .left, overlapped := overlapped }
  | decide (hphase : c.phase = .left) : Becomes now c { c with phase := .finished }

omit [DecidableEq κ] in
theorem put_becomes {s : Bridge ι κ} {k : ι} {c : Call} (h : (s.calls k).Becomes s.now c) (i : ι) :
    (s.calls i).Becomes s.now ((s.put k c).calls i) := by
  simp only [Bridge.put, Function.update_apply]
  split_ifs with hi
  · rw [hi]
    exact h
  · exact .same

theorem next_becomes {s t : Bridge ι κ} {a : Action ι} {e : Option MemoryLabel} (h : next execID s a = some (t, e))
    (i : ι) :
    (s.calls i).Becomes s.now (t.calls i) := by
  cases a with
  | tick d =>
    cases h
    exact .same
  | baseline k intervalMS path setupError pids meminfo =>
    simp only [next] at h
    split_ifs at h with hk
    cases h
    exact put_becomes (.baseline intervalMS path setupError pids meminfo hk) i
  | register k =>
    simp only [next] at h
    split_ifs at h with hk
    cases h
    exact put_becomes (.register hk) i
  | sample k pids meminfo =>
    simp only [next] at h
    split_ifs at h
    cases h
    exact put_becomes (.sample pids meminfo) i
  | begin k =>
    simp only [next] at h
    split_ifs at h with hk
    cases h
    exact put_becomes (.begin hk) i
  | mark k =>
    simp only [next] at h
    split_ifs at h with hk
    cases h
    exact put_becomes (.mark hk) i
  | stop k =>
    simp only [next] at h
    split_ifs at h with hk
    cases h
    exact put_becomes (.stop hk) i
  | leave k =>
    simp only [next] at h
    split_ifs at h with hk
    cases h
    exact put_becomes (.leave _ hk) i
  | decide k =>
    simp only [next] at h
    split_ifs at h with hk
    cases h
    exact put_becomes (.decide hk) i

theorem Call.Becomes.baselined {now : ℤ} {c d : Call} (h : c.Becomes now d) (hc : c.phase = .baselined) :
    d.phase = .baselined ∨ d.phase = .registered := by
  cases h <;> simp_all

theorem Call.Becomes.over {now : ℤ} {c d : Call} (h : c.Becomes now d)
    (hc : (c.phase = .left ∨ c.phase = .finished) ∧ c.overlapped = true) :
    (d.phase = .left ∨ d.phase = .finished) ∧ d.overlapped = true := by
  cases h <;> simp_all

theorem scanProcess_samples (first : Bool) (pids : List ProcFiles) (acc : ScanAcc) :
    (pids.foldl (scanProcess first) acc).collector.environmentSamples = acc.collector.environmentSamples := by
  induction pids generalizing acc with
  | nil => rfl
  | cons p pids ih =>
    rw [List.foldl_cons, ih]
    unfold scanProcess
    split
    · rfl
    · cases first <;> rfl

theorem addSample_samples (c : ResourceCollector) (now : ℤ) (used : Option ℤ) :
    (c.addSample now used).environmentSamples = c.environmentSamples ∨
      ∃ bytes, (c.addSample now used).environmentSamples = c.environmentSamples ++ [⟨now, bytes⟩] := by
  cases used with
  | none => exact .inl rfl
  | some bytes =>
    unfold ResourceCollector.addSample
    simp only
    split_ifs
    · exact .inr ⟨bytes, rfl⟩
    · exact .inl rfl

theorem scanProcessTree_samples (c : ResourceCollector) (pids : List ProcFiles) (now : ℤ) (meminfo : Option Text) :
    (c.scanProcessTree pids now meminfo).environmentSamples = c.environmentSamples ∨
      ∃ bytes, (c.scanProcessTree pids now meminfo).environmentSamples = c.environmentSamples ++ [⟨now, bytes⟩] := by
  have hscan := scanProcess_samples (c.pointCount == 0) pids ⟨c, 0, 0⟩
  unfold ResourceCollector.scanProcessTree
  rw [← show _ = c.environmentSamples from hscan]
  exact addSample_samples _ _ _

structure ResourceCollector.Timed (c : ResourceCollector) (now : ℤ) : Prop where
  sorted : c.environmentSamples.Pairwise (fun a b => a.takenAt ≤ b.takenAt)
  past : ∀ s ∈ c.environmentSamples, s.takenAt ≤ now

theorem ResourceCollector.Timed.scan {c : ResourceCollector} {now : ℤ} (h : c.Timed now) (pids : List ProcFiles)
    (meminfo : Option Text) : (c.scanProcessTree pids now meminfo).Timed now := by
  cases scanProcessTree_samples c pids now meminfo with
  | inl heq => exact ⟨by rw [heq]; exact h.sorted, by rw [heq]; exact h.past⟩
  | inr hadd =>
    obtain ⟨used, heq⟩ := hadd
    constructor
    · rw [heq, List.pairwise_append]
      refine ⟨h.sorted, List.pairwise_singleton _ _, ?_⟩
      intro a ha b hb
      rw [List.mem_singleton] at hb
      rw [hb]
      exact h.past a ha
    · rw [heq]
      intro a ha
      rw [List.mem_append, List.mem_singleton] at ha
      cases ha with
      | inl ha => exact h.past a ha
      | inr ha => rw [ha]

theorem Call.Becomes.timed {now : ℤ} {c d : Call} (h : c.Becomes now d) (hc : c.collector.Timed now) :
    d.collector.Timed now := by
  cases h with
  | baseline intervalMS path setupError pids meminfo _ =>
    apply ResourceCollector.Timed.scan
    exact ⟨List.Pairwise.nil, by simp [startResourceCollectorPrepared]⟩
  | sample pids meminfo => exact hc.scan pids meminfo
  | mark _ => exact ⟨hc.sorted, hc.past⟩
  | same => exact hc
  | register _ => exact hc
  | begin _ => exact hc
  | stop _ => exact hc
  | leave _ _ => exact hc
  | decide _ => exact hc

theorem next_now {s t : Bridge ι κ} {a : Action ι} {e : Option MemoryLabel} (h : next execID s a = some (t, e)) :
    s.now ≤ t.now := by
  cases a with
  | tick d =>
    cases h
    simp
  | baseline | register | sample | begin | mark | stop | leave | decide =>
    simp only [next] at h
    split_ifs at h
    cases h
    exact le_refl _

def Bridge.Timed (s : Bridge ι κ) : Prop := ∀ i, (s.calls i).collector.Timed s.now

theorem Bridge.Timed.step {s t : Bridge ι κ} {a : Action ι} {e : Option MemoryLabel} (h : s.Timed)
    (hs : next execID s a = some (t, e)) : t.Timed := by
  intro i
  have hi := (next_becomes hs i).timed (h i)
  exact ⟨hi.sorted, fun x hx => le_trans (hi.past x hx) (next_now hs)⟩

def Bridge.Shadowed (execID : ι → κ) (s : Bridge ι κ) (i j : ι) : Prop :=
  ((s.calls i).phase = .baselined ∧ s.Registered j) ∨
    (s.Registered i ∧ s.active.get? (execID i) = some true) ∨
    (((s.calls i).phase = .left ∨ (s.calls i).phase = .finished) ∧ (s.calls i).overlapped = true)

theorem Bridge.Shadowed.step {s t : Bridge ι κ} {a : Action ι} {e : Option MemoryLabel} {i j : ι}
    (h : s.Shadowed execID i j) (hsound : s.Sound execID) (hs : next execID s a = some (t, e))
    (ho : Orderly execID s a) : t.Shadowed execID i j := by
  rcases h with ⟨hphase, hj⟩ | ⟨hi, hflag⟩ | hover
  · -- the execution stands before its registration, the other one may not leave
    have hni : ¬ s.Registered i := by
      rw [Bridge.Registered, hphase]
      decide
    cases next_moves hs with
    | same _ hreg =>
      cases (next_becomes hs i).baselined hphase with
      | inl hb => exact .inl ⟨hb, (hreg j).2 hj⟩
      | inr hr =>
        have hti : t.Registered i := by
          rw [Bridge.Registered, hr]
          rfl
        exact absurd ((hreg i).1 hti) hni
    | register k _ hactive hreg =>
      cases (next_becomes hs i).baselined hphase with
      | inl hb => exact .inl ⟨hb, (hreg j).2 (.inr hj)⟩
      | inr hr =>
        have hti : t.Registered i := by
          rw [Bridge.Registered, hr]
          rfl
        have hik : i = k := ((hreg i).1 hti).resolve_right hni
        refine .inr (.inl ⟨hti, ?_⟩)
        rw [hactive, hik, get?_register_self, decide_eq_true (entries_ne_nil (hsound.listed j hj))]
    | leave k => exact absurd hphase (ho i)
  · -- it is registered and marked: marks are only added
    cases next_moves hs with
    | same hactive hreg => exact .inr (.inl ⟨(hreg i).2 hi, by rw [hactive, hflag]⟩)
    | register k _ hactive hreg =>
      have hne : execID i ≠ execID k := by
        intro heq
        rw [heq] at hflag
        rw [Orderly, hflag] at ho
        cases ho
      refine .inr (.inl ⟨(hreg i).2 (.inr hi), ?_⟩)
      rw [hactive, get?_register_ne _ hne, hflag]
      rfl
    | leave k hk hactive hreg =>
      by_cases hik : i = k
      · -- it leaves with its mark
        subst hik
        simp only [next] at hs
        split_ifs at hs
        cases hs
        refine .inr (.inr ⟨.inl ?_, ?_⟩)
        · simp [Bridge.put]
        · simp [Bridge.put, finishEnvironmentCall, hflag]
      · refine .inr (.inl ⟨(hreg i).2 ⟨hi, hik⟩, ?_⟩)
        rw [hactive, PyDict.get?_pop_ne _ (fun heq => hik (hsound.apart i k hi hk heq)), hflag]
  · exact .inr (.inr ((next_becomes hs i).over hover))

def orderly (execID : ι → κ) : System (Bridge ι κ) (Action ι × Option MemoryLabel) :=
  (bridge execID).restrict (fun s l => Orderly execID s l.1)

theorem sound_reachable {s : Bridge ι κ} (h : Reachable (orderly execID) s) : s.Sound execID := by
  apply h.invariant
  · exact fun _ hs => Bridge.Sound.start hs
  · exact fun _ _ _ hs hstep => hs.step hstep.1 hstep.2

theorem timed_reachable {s : Bridge ι κ} (h : Reachable (orderly execID) s) : s.Timed := by
  apply h.invariant
  · intro s hs i
    rw [hs.2 i]
    exact ⟨List.Pairwise.nil, by simp⟩
  · exact fun _ _ _ hs hstep => hs.step hstep.1

theorem shadowed_run {u s : Bridge ι κ} {as : List (Action ι × Option MemoryLabel)} {i j : ι}
    (hu : Reachable (orderly execID) u) (hrun : Run (orderly execID) u as s) (h : u.Shadowed execID i j) :
    s.Shadowed execID i j := by
  induction hrun with
  | nil => exact h
  | snoc hrun hstep ih => exact ih.step (sound_reachable (hu.run hrun)) hstep.1 hstep.2

/-- In a run whose steps are all orderly, an eligible label is what the samples around the execution say, and from its
baseline scan until it left nobody else was registered. -/
theorem memory_label_sound {u s t : Bridge ι κ} {as : List (Action ι × Option MemoryLabel)} {i : ι}
    {label : MemoryLabel} (hu : Reachable (orderly execID) u) (hrun : Run (orderly execID) u as s)
    (hdecide : next execID s (.decide i) = some (t, some label)) (heligible : label.eligible = true) :
    (∃ started baseline, (s.calls i).collector.executionStarted = some started ∧
      Supports (s.calls i).collector.environmentSamples started (s.calls i).tsEnd baseline label) ∧
    ((u.calls i).phase = .baselined ∨ u.Registered i → ∀ j, j ≠ i → ¬ u.Registered j) := by
  simp only [next] at hdecide
  split_ifs at hdecide with hphase
  simp only [Option.some.injEq, Prod.mk.injEq] at hdecide
  obtain ⟨-, rfl⟩ := hdecide
  obtain ⟨hover, hsupports⟩ := supports_of_eligible (timed_reachable (hu.run hrun) i).sorted heligible
  refine ⟨hsupports, ?_⟩
  intro hi j hji hj
  have hshadow : u.Shadowed execID i j := by
    cases hi with
    | inl hb => exact .inl ⟨hb, hj⟩
    | inr hr => exact .inr (.inl ⟨hr, (sound_reachable hu).overlaps i j (Ne.symm hji) hr hj⟩)
  rcases shadowed_run hu hrun hshadow with ⟨hb, -⟩ | ⟨hr, -⟩ | ⟨-, ht⟩
  · rw [hphase] at hb
    cases hb
  · rw [Bridge.Registered, hphase] at hr
    cases hr
  · rw [hover] at ht
    cases ht

theorem next_decide {s : Bridge ι κ} {i : ι} (h : (s.calls i).phase = .left) :
    next execID s (.decide i) = some (s.put i { s.calls i with phase := .finished },
      some ((s.calls i).collector.memoryLabel (s.calls i).overlapped (s.calls i).tsEnd)) := by
  simp [next, h]

def memTexts (available : String) : Option Text :=
  some ("MemTotal: 1000 kB\nMemAvailable: " ++ available ++ " kB\n").toList

def quiet : Bridge Bool Bool := ⟨0, ∅, fun _ => {}⟩

theorem quiet_start : Start quiet := ⟨rfl, fun _ => rfl⟩

def after (s : Bridge Bool Bool) (as : List (Action Bool)) : Bridge Bool Bool :=
  (trace (guarded (fun s a => decide (Orderly id s a)) (next id)) s as).1

theorem run_after (s : Bridge Bool Bool) (as : List (Action Bool)) : ∃ ls, Run (orderly id) s ls (after s as) := by
  refine ⟨_, (run_guarded Start (next id) (fun s a => decide (Orderly id s a)) s as).mono ?_⟩
  exact fun _ _ _ h => ⟨h.1, of_decide_eq_true h.2⟩

def secondUntilStart : List (Action Bool) :=
  [.baseline false 20 [] "" [] (memTexts "950"), .register false, .begin false, .mark false, .tick 3000000,
    .sample false [] (memTexts "500"), .stop false, .leave false, .decide false, .tick 2000000,
    .baseline true 20 [] "" [] (memTexts "900"), .register true, .tick 1000000, .begin true]

def secondUntilEnd : List (Action Bool) :=
  [.mark true, .tick 5000000, .sample true [] (memTexts "700"), .tick 5000000, .stop true, .leave true]

def secondLeft : Bridge Bool Bool := after (after quiet secondUntilStart) secondUntilEnd

def secondLabel : MemoryLabel :=
  (secondLeft.calls true).collector.memoryLabel (secondLeft.calls true).overlapped (secondLeft.calls true).tsEnd

theorem memory_label_sound_second :
    (∃ started baseline, (secondLeft.calls true).collector.executionStarted = some started ∧
      Supports (secondLeft.calls true).collector.environmentSamples started (secondLeft.calls true).tsEnd baseline
      secondLabel) ∧
    ¬ (after quiet secondUntilStart).Registered false := by
  obtain ⟨ls, hu⟩ := run_after quiet secondUntilStart
  obtain ⟨ms, hrun⟩ := run_after (after quiet secondUntilStart) secondUntilEnd
  have hleft : (secondLeft.calls true).phase = .left := by decide +kernel
  have heligible : secondLabel.eligible = true := by decide +kernel
  have hregistered : (after quiet secondUntilStart).Registered true := by decide +kernel
  obtain ⟨hsupports, halone⟩ :=
    memory_label_sound ((Reachable.start quiet_start).run hu) hrun (next_decide hleft) heligible
  exact ⟨hsupports, halone (.inr hregistered) false (by decide)⟩

def otherUntilScan : List (Action Bool) :=
  [.baseline false 20 [] "" [] none, .register false, .begin false, .mark false, .stop false,
    .baseline true 20 [] "" [] (memTexts "900")]

def otherUntilEnd : List (Action Bool) :=
  .leave false :: .register true :: .tick 1000000 :: .begin true :: secondUntilEnd

theorem unseen_overlap : ∃ u s t : Bridge Bool Bool, ∃ ls ms label baseline,
    Run (bridge id) quiet ls u ∧ Run (bridge id) u ms s ∧ next id s (.decide true) = some (t, some label) ∧
    label.eligible = true ∧ label.timeline.head? = some baseline ∧
    baseline ∈ (u.calls true).collector.environmentSamples ∧ u.Registered false := by
  have hleft : ((trace (next id) (trace (next id) quiet otherUntilScan).1 otherUntilEnd).1.calls true).phase =
      .left := by
    decide +kernel
  exact ⟨_, _, _, _, _, _, ⟨0, 102400⟩, run_trace Start (next id) quiet otherUntilScan,
    run_trace Start (next id) _ otherUntilEnd,
    next_decide hleft, by decide +kernel, by decide +kernel, by decide +kernel, by decide +kernel⟩

end ClawBox.Collector
