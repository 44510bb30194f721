import ClawBox.Lib.Meters
import ClawBox.Collector.Sampling

namespace ClawBox.Collector

open Fields Meters Binary64

inductive Quantity where
  | user
  | system
  | read
  | write
  deriving DecidableEq

/-- The moment of a read: the process that holds the pid, and what every process has used by then. -/
structure Instant (O : Type*) where
  owner : O
  used : O → Quantity → ℤ

structure Visited (O : Type*) where
  files : ProcFiles
  statAt : Instant O
  ioAt : Instant O

structure Sample (O : Type*) where
  visits : List (Visited O)
  now : ℤ
  meminfo : Option Text

def ResourceCollector.last (c : ResourceCollector) : Quantity → ℕ → Option ℤ
  | .user => c.lastUser
  | .system => c.lastSys
  | .read => c.lastRead
  | .write => c.lastWrite

-- The increments from which the totals of the collector were summed, each sum as the code makes it.
structure AddsUp (c : ResourceCollector) (ds : Quantity → List ℤ) : Prop where
  user : c.cpuUserSeconds = (ds .user).foldl addSeconds 0
  system : c.cpuSysSeconds = (ds .system).foldl addSeconds 0
  read : c.readBytes = (ds .read).foldl addBytes 0
  write : c.writeBytes = (ds .write).foldl addBytes 0

structure Metered (c : ResourceCollector) (m : Quantity → Meter ℕ) : Prop extends
    AddsUp c (fun q => (m q).gains) where
  last : ∀ q, c.last q = (m q).last

variable {O : Type*}

def ResourceCollector.scanSample (c : ResourceCollector) (s : Sample O) : ResourceCollector :=
  c.scanProcessTree (s.visits.map Visited.files) s.now s.meminfo

def ProcFiles.shown (p : ProcFiles) (s : ProcStat) : Quantity → ℤ
  | .user => s.utime
  | .system => s.stime
  | .read => ( readProcIO p.io).1
  | .write => ( readProcIO p.io).2

def heed (first : Bool) (m : Meter ℕ) (reading : ℕ × ℤ) : Meter ℕ :=
  if first then m.rebase reading.1 reading.2 else m.advance reading.1 reading.2

theorem foldl_gain {α : Type} (add : α → ℤ → α) (total : α) (last : Option ℤ) (value : ℤ) :
    (gain last value).foldl add total = grown add total last value := by
  cases last with
  | none => rfl
  | some p =>
    simp only [gain, grown, ge_iff_le]
    split_ifs <;> rfl

theorem Metered.note {c : ResourceCollector} {m : Quantity → Meter ℕ} (h : Metered c m) (first : Bool)
    (p : ProcFiles) (s : ProcStat) :
    Metered (c.note first p.pid s.utime s.stime ( readProcIO p.io).1 ( readProcIO p.io).2)
      (fun q => heed first (m q) (p.pid, p.shown s q)) := by
  have hlast : ∀ q, (c.note first p.pid s.utime s.stime ( readProcIO p.io).1 ( readProcIO p.io).2).last q =
      Function.update (c.last q) p.pid (some (p.shown s q)) := by
    intro q
    cases first <;> cases q <;> rfl
  cases first with
  | true =>
    refine ⟨⟨h.user, h.system, h.read, h.write⟩, ?_⟩
    intro q
    rw [hlast, h.last]
    rfl
  | false =>
    refine ⟨⟨?_, ?_, ?_, ?_⟩, ?_⟩
    · have hprev : (m .user).last = c.lastUser := (h.last .user).symm
      simp [ResourceCollector.note, heed, Meter.advance, foldl_gain, ← h.user, hprev, ProcFiles.shown]
    · have hprev : (m .system).last = c.lastSys := (h.last .system).symm
      simp [ResourceCollector.note, heed, Meter.advance, foldl_gain, ← h.system, hprev, ProcFiles.shown]
    · have hprev : (m .read).last = c.lastRead := (h.last .read).symm
      simp [ResourceCollector.note, heed, Meter.advance, foldl_gain, ← h.read, hprev, ProcFiles.shown]
    · have hprev : (m .write).last = c.lastWrite := (h.last .write).symm
      simp [ResourceCollector.note, heed, Meter.advance, foldl_gain, ← h.write, hprev, ProcFiles.shown]
    · intro q
      rw [hlast, h.last]
      rfl

def shownIn (q : Quantity) (procs : List ProcFiles) : List (ℕ × ℤ) :=
  procs.filterMap (fun p => p.live.map (fun s => (p.pid, p.shown s q)))

theorem Metered.scan (first : Bool) (procs : List ProcFiles) {acc : ScanAcc} {m : Quantity → Meter ℕ}
    (h : Metered acc.collector m) :
    Metered (procs.foldl (scanProcess first) acc).collector
      (fun q => (shownIn q procs).foldl (heed first) (m q)) := by
  induction procs generalizing acc m with
  | nil => exact h
  | cons p procs ih =>
    rw [List.foldl_cons]
    cases hp : p.live with
    | none =>
      simp only [scanProcess, shownIn, hp, List.filterMap_cons, Option.map_none]
      exact ih h
    | some s =>
      simp only [scanProcess, shownIn, hp, List.filterMap_cons, Option.map_some, List.foldl_cons]
      exact ih (h.note first p s)

theorem Metered.addSample {c : ResourceCollector} {m : Quantity → Meter ℕ} (h : Metered c m) (now : ℤ)
    (used : Option ℤ) : Metered (c.addSample now used) m := by
  unfold ResourceCollector.addSample
  split
  · exact h
  · split_ifs
    · refine ⟨⟨h.user, h.system, h.read, h.write⟩, fun q => ?_⟩
      have hq := h.last q
      cases q <;> exact hq
    · refine ⟨⟨h.user, h.system, h.read, h.write⟩, fun q => ?_⟩
      have hq := h.last q
      cases q <;> exact hq

theorem pointCount_addSample (c : ResourceCollector) (now : ℤ) (used : Option ℤ) :
    (c.addSample now used).pointCount = c.pointCount := by
  unfold ResourceCollector.addSample
  split
  · rfl
  · split_ifs <;> rfl

def Sample.heeded (s : Sample O) (first : Bool) (q : Quantity) (m : Meter ℕ) : Meter ℕ :=
  (shownIn q (s.visits.map Visited.files)).foldl (heed first) m

theorem Metered.scanSample {c : ResourceCollector} {m : Quantity → Meter ℕ} (h : Metered c m) (s : Sample O) :
    Metered (c.scanSample s) (fun q => s.heeded (c.pointCount == 0) q (m q)) := by
  have hscan : Metered ((s.visits.map Visited.files).foldl (scanProcess (c.pointCount == 0)) ⟨c, 0, 0⟩).collector _ :=
    Metered.scan (c.pointCount == 0) (s.visits.map Visited.files) h
  rw [ResourceCollector.scanSample, ResourceCollector.scanProcessTree]
  apply Metered.addSample
  refine ⟨⟨hscan.user, hscan.system, hscan.read, hscan.write⟩, fun q => ?_⟩
  have hq := hscan.last q
  cases q <;> exact hq

theorem pointCount_scanSample (c : ResourceCollector) (s : Sample O) :
    (c.scanSample s).pointCount = c.pointCount + 1 := by
  rw [ResourceCollector.scanSample, ResourceCollector.scanProcessTree, pointCount_addSample]

def collected (c : ResourceCollector) (samples : List (Sample O)) : ResourceCollector :=
  samples.foldl ResourceCollector.scanSample c

def metersOf : List (Sample O) → Quantity → Meter ℕ
  | [], _ => Meter.empty
  | first :: later, q => later.foldl (fun m s => s.heeded false q m) (first.heeded true q Meter.empty)

theorem Metered.collected_later (samples : List (Sample O)) {c : ResourceCollector} {m : Quantity → Meter ℕ}
    (hc : 0 < c.pointCount) (h : Metered c m) :
    Metered (collected c samples) (fun q => samples.foldl (fun m s => s.heeded false q m) (m q)) := by
  induction samples generalizing c m with
  | nil => exact h
  | cons s samples ih =>
    have hpos : 0 < (c.scanSample s).pointCount := by
      rw [pointCount_scanSample]
      omega
    have hne : (c.pointCount == 0) = false := by
      rw [beq_eq_false_iff_ne]
      omega
    have hs := h.scanSample s
    rw [hne] at hs
    exact ih hpos hs

theorem metered_collected {c : ResourceCollector} (hc : c.pointCount = 0) (h : Metered c (fun _ => Meter.empty))
    (samples : List (Sample O)) : Metered (collected c samples) (metersOf samples) := by
  cases samples with
  | nil => exact h
  | cons first later =>
    have hpos : 0 < (c.scanSample first).pointCount := by
      rw [pointCount_scanSample]
      omega
    have hz : (c.pointCount == 0) = true := by simp [hc]
    have hfirst := h.scanSample first
    rw [hz] at hfirst
    exact Metered.collected_later later hpos hfirst

theorem heeded_gains (s : Sample O) (first : Bool) (q : Quantity) (m : Meter ℕ) :
    ∃ more, (s.heeded first q m).gains = m.gains ++ more ∧ ∀ d ∈ more, 0 ≤ d := by
  unfold Sample.heeded
  generalize shownIn q (s.visits.map Visited.files) = readings
  induction readings generalizing m with
  | nil => exact ⟨[], by simp, by simp⟩
  | cons r readings ih =>
    obtain ⟨more, hmore, hpos⟩ := ih (heed first m r)
    rw [List.foldl_cons, hmore]
    cases first with
    | true => exact ⟨more, rfl, hpos⟩
    | false =>
      refine ⟨gain (m.last r.1) r.2 ++ more, by simp [heed, Meter.advance], ?_⟩
      intro d hd
      cases List.mem_append.1 hd with
      | inl hd => exact gain_nonneg hd
      | inr hd => exact hpos d hd

theorem gains_later (samples : List (Sample O)) (q : Quantity) (m : Meter ℕ) :
    ∃ more, (samples.foldl (fun m s => s.heeded false q m) m).gains = m.gains ++ more ∧ ∀ d ∈ more, 0 ≤ d := by
  induction samples generalizing m with
  | nil => exact ⟨[], by simp, by simp⟩
  | cons s samples ih =>
    obtain ⟨more, hmore, hpos⟩ := heeded_gains s false q m
    obtain ⟨rest, hrest, hrestpos⟩ := ih (s.heeded false q m)
    refine ⟨more ++ rest, by rw [List.foldl_cons, hrest, hmore, List.append_assoc], ?_⟩
    intro d hd
    cases List.mem_append.1 hd with
    | inl hd => exact hpos d hd
    | inr hd => exact hrestpos d hd

theorem foldl_heeded (samples : List (Sample O)) (q : Quantity) (m : Meter ℕ) :
    samples.foldl (fun m s => s.heeded false q m) m =
      (samples.flatMap (fun s => shownIn q (s.visits.map Visited.files))).foldl (heed false) m := by
  rw [List.foldl_flatMap]
  rfl

theorem gains_metersOf (samples more : List (Sample O)) (q : Quantity) :
    (metersOf samples q).gains <+: (metersOf (samples ++ more) q).gains := by
  cases samples with
  | nil => exact List.nil_prefix
  | cons first later =>
    obtain ⟨rest, hrest, _⟩ :=
      gains_later more q (later.foldl (fun m s => s.heeded false q m) (first.heeded true q Meter.empty))
    rw [List.cons_append, metersOf, metersOf, List.foldl_append, hrest]
    exact List.prefix_append _ _

theorem gains_nonneg (samples : List (Sample O)) (q : Quantity) : ∀ d ∈ (metersOf samples q).gains, 0 ≤ d := by
  cases samples with
  | nil => simp [metersOf, Meter.empty]
  | cons first later =>
    obtain ⟨more, hmore, hpos⟩ := heeded_gains first true q Meter.empty
    obtain ⟨rest, hrest, hrestpos⟩ := gains_later later q (first.heeded true q Meter.empty)
    rw [metersOf, hrest, hmore]
    intro d hd
    simp only [Meter.empty, List.nil_append, List.mem_append] at hd
    cases hd with
    | inl hd => exact hpos d hd
    | inr hd => exact hrestpos d hd

def RoundsDown (ticks : List ℤ) : Prop :=
  ∀ before t after, ticks = before ++ t :: after →
    (before ++ [t]).foldl addSeconds 0 ≤ before.foldl addSeconds 0 + t / 100

theorem int64_le {n : ℤ} (h : 0 ≤ n) : int64 n ≤ n := by
  simp only [int64, Int.bmod]
  split_ifs <;> omega

theorem int64_of_lt {n : ℤ} (h : 0 ≤ n) (hlt : n < 2 ^ 63) : int64 n = n := by
  simp only [int64, Int.bmod]
  split_ifs <;> omega

theorem ticksToSeconds_le {t : ℤ} (h : 0 ≤ t) : ticksToSeconds (int64 t) ≤ (1 + 1 / 2 ^ 53) ^ 2 * (t / 100) := by
  have hcast : (0 : ℚ) ≤ t := by exact_mod_cast h
  have hle : (int64 t : ℚ) ≤ t := by exact_mod_cast int64_le h
  have hticks := rnd_le hle hcast
  have hpos : (0 : ℚ) ≤ (1 + 1 / 2 ^ 53) * t / 100 := by positivity
  calc ticksToSeconds (int64 t) ≤ (1 + 1 / 2 ^ 53) * ((1 + 1 / 2 ^ 53) * t / 100) := rnd_le (by linarith) hpos
    _ = (1 + 1 / 2 ^ 53) ^ 2 * (t / 100) := by ring

theorem seconds_le {ticks : List ℤ} (h : ∀ t ∈ ticks, 0 ≤ t) :
    ticks.foldl addSeconds 0 ≤ (1 + 1 / 2 ^ 53) ^ (ticks.length + 2) * ((ticks.sum : ℚ) / 100) := by
  induction ticks using List.reverseRecOn with
  | nil => simp
  | append_singleton ticks t ih =>
    have hticks : ∀ t ∈ ticks, 0 ≤ t := fun u hu => h u (by simp [hu])
    have ht : 0 ≤ t := h t (by simp)
    have hsum : (0 : ℚ) ≤ ticks.sum := by exact_mod_cast List.sum_nonneg hticks
    have htq : (0 : ℚ) ≤ t := by exact_mod_cast ht
    have hpow : (1 + 1 / 2 ^ 53 : ℚ) ^ 2 ≤ (1 + 1 / 2 ^ 53) ^ (ticks.length + 2) :=
      pow_le_pow_right₀ (by norm_num) (by omega)
    have hadd := mul_le_mul_of_nonneg_right hpow (by positivity : (0 : ℚ) ≤ t / 100)
    rw [List.foldl_append, List.foldl_cons, List.foldl_nil, addSeconds, List.length_append, List.sum_append]
    have hle : ticks.foldl addSeconds 0 + ticksToSeconds (int64 t) ≤
        (1 + 1 / 2 ^ 53) ^ (ticks.length + 2) * ((ticks.sum + t) / 100) := by
      linarith [ih hticks, ticksToSeconds_le ht]
    refine le_trans (rnd_le hle (by positivity)) (le_of_eq ?_)
    simp only [List.length_singleton, List.sum_singleton]
    push_cast
    ring

theorem RoundsDown.seconds_le {ticks : List ℤ} (h : RoundsDown ticks) :
    ticks.foldl addSeconds 0 ≤ (ticks.sum : ℚ) / 100 := by
  induction ticks using List.reverseRecOn with
  | nil => simp
  | append_singleton ticks t ih =>
    have hlast := h ticks t [] rfl
    have hinit : RoundsDown ticks := by
      intro before u after hticks
      exact h before u (after ++ [t]) (by simp [hticks])
    have hsum := ih hinit
    rw [List.sum_append, List.sum_singleton, Int.cast_add]
    linarith

theorem bytes_eq (increments : List ℤ) : increments.foldl addBytes 0 = int64 increments.sum := by
  induction increments using List.reverseRecOn with
  | nil => rfl
  | append_singleton increments b ih =>
    rw [List.foldl_append, List.foldl_cons, List.foldl_nil, ih, addBytes, List.sum_append, List.sum_singleton]
    simp [int64]

def Visited.instant (v : Visited O) : Quantity → Instant O
  | .user => v.statAt
  | .system => v.statAt
  | .read => v.ioAt
  | .write => v.ioAt

def Visited.own (v : Visited O) (q : Quantity) : ℤ := (v.instant q).used (v.instant q).owner q

def liveVisits (samples : List (Sample O)) : List (Visited O) :=
  (samples.flatMap Sample.visits).filter (fun v => v.files.live.isSome)

def Visited.shown (v : Visited O) (q : Quantity) : ℤ := (v.files.live.map (fun s => v.files.shown s q)).getD 0

def Visited.tells (v : Visited O) (q : Quantity) : Bool := decide (v.shown q = v.own q)

def instants (visits : List (Visited O)) : List (Instant O) := visits.flatMap (fun v => [v.statAt, v.ioAt])

/-- Use only grows, and a pid passes to another process only before that has used anything. -/
def Instant.Before (pidOf : O → ℕ) (a b : Instant O) : Prop :=
  (∀ o q, a.used o q ≤ b.used o q) ∧
    (pidOf a.owner = pidOf b.owner → a.owner ≠ b.owner → ∀ q, a.used b.owner q = 0)

structure History (O : Type*) where
  pidOf : O → ℕ
  start : O → Quantity → ℤ
  finish : O → Quantity → ℤ
  first : Sample O
  later : List (Sample O)

def History.samples (h : History O) : List (Sample O) := h.first :: h.later

structure History.Valid (h : History O) : Prop where
  pos : ∀ o q, 0 ≤ h.start o q
  grows : ∀ o q, h.start o q ≤ h.finish o q
  after : ∀ i ∈ instants (liveVisits h.samples), ∀ o q, h.start o q ≤ i.used o q
  before : ∀ i ∈ instants (liveVisits h.samples), ∀ o q, i.used o q ≤ h.finish o q
  ordered : (instants (liveVisits h.samples)).Pairwise (Instant.Before h.pidOf)
  pids : ∀ v ∈ liveVisits h.samples, ∀ q, h.pidOf (v.instant q).owner = v.files.pid
  ticks : ∀ v ∈ liveVisits h.samples, v.tells .user ∧ v.tells .system

/-- A reading that does not show the process's own use shows 0, and no process that had used anything by then is shown
under the pid later. -/
structure History.Trusted (h : History O) (q : Quantity) : Prop where
  zero : ∀ v ∈ liveVisits h.samples, v.tells q = false → v.shown q = 0
  lost : (liveVisits h.samples).Pairwise (fun a b =>
    a.files.pid = b.files.pid → a.tells q = false → b.tells q = true → (a.instant q).used (b.instant q).owner q = 0)

variable [DecidableEq O]

def base (start : O → ℤ) (q : Quantity) (visits : List (Visited O)) : O → ℤ :=
  visits.foldl (fun f v => if v.tells q then Function.update f (v.instant q).owner (v.own q) else f) start

def History.observed (h : History O) : Finset O :=
  ((liveVisits h.samples).flatMap (fun v => [v.statAt.owner, v.ioAt.owner])).toFinset

/-- What the observed processes used after the first sample: after their reading there, or since it began; a process
born later had used nothing by then. -/
def History.consumed (h : History O) (q : Quantity) : ℤ :=
  ∑ o ∈ h.observed, (h.finish o q - base (fun o => h.start o q) q (liveVisits [h.first]) o)

def Visited.reading (v : Visited O) (q : Quantity) : Visit (O ⊕ ℕ) :=
  ⟨if v.tells q then .inl (v.instant q).owner else .inr v.files.pid,
    Sum.elim (fun o => (v.instant q).used o q) (fun _ => 0)⟩

def History.key (h : History O) : O ⊕ ℕ → ℕ := Sum.elim h.pidOf id

def History.floor (h : History O) (q : Quantity) : O ⊕ ℕ → ℤ := Sum.elim (fun o => h.start o q) (fun _ => 0)

omit [DecidableEq O] in
theorem liveVisits_cons (s : Sample O) (samples : List (Sample O)) :
    liveVisits (s :: samples) = liveVisits [s] ++ liveVisits samples := by
  simp [liveVisits]

omit [DecidableEq O] in
theorem shownIn_eq (q : Quantity) (visits : List (Visited O)) :
    shownIn q (visits.map Visited.files) =
      (visits.filter (fun v => v.files.live.isSome)).map (fun v => (v.files.pid, v.shown q)) := by
  induction visits with
  | nil => rfl
  | cons v visits ih =>
    rw [shownIn] at ih ⊢
    cases hv : v.files.live with
    | none => simp [hv, ih]
    | some s => simp [hv, ih, Visited.shown]

omit [DecidableEq O] in
theorem shownIn_samples (q : Quantity) (samples : List (Sample O)) :
    samples.flatMap (fun s => shownIn q (s.visits.map Visited.files)) =
      (liveVisits samples).map (fun v => (v.files.pid, v.shown q)) := by
  induction samples with
  | nil => rfl
  | cons s samples ih =>
    rw [List.flatMap_cons, ih, shownIn_eq, liveVisits_cons, List.map_append]
    simp [liveVisits]

omit [DecidableEq O] in
theorem reading_value {v : Visited O} {q : Quantity} (h : v.tells q = false → v.shown q = 0) :
    (v.reading q).value = v.shown q := by
  cases ht : v.tells q with
  | true =>
    rw [Visited.tells, decide_eq_true_eq] at ht
    simp [Visited.reading, Visit.value, Visited.tells, ht, Visited.own]
  | false => simp [Visited.reading, Visit.value, ht, h ht]

omit [DecidableEq O] in
theorem reading_key {h : History O} {v : Visited O} {q : Quantity} (hp : h.pidOf (v.instant q).owner = v.files.pid) :
    h.key (v.reading q).owner = v.files.pid := by
  unfold Visited.reading History.key
  split_ifs
  · exact hp
  · rfl

omit [DecidableEq O] in
theorem metersOf_history {h : History O} (hv : h.Valid) {q : Quantity} (hq : h.Trusted q) :
    metersOf h.samples q =
      (Meter.empty.rebaseAll h.key ((liveVisits [h.first]).map (fun v => v.reading q))).advanceAll h.key
        ((liveVisits h.later).map (fun v => v.reading q)) := by
  have hpair : ∀ v ∈ liveVisits h.samples,
      (v.files.pid, v.shown q) = (h.key (v.reading q).owner, (v.reading q).value) := by
    intro v hmem
    rw [reading_value (hq.zero v hmem), reading_key (hv.pids v hmem q)]
  have hfirst : (liveVisits [h.first]).map (fun v => (v.files.pid, v.shown q)) =
      (liveVisits [h.first]).map (fun v => (h.key (v.reading q).owner, (v.reading q).value)) := by
    apply List.map_congr_left
    intro v hmem
    apply hpair
    rw [History.samples, liveVisits_cons]
    exact List.mem_append_left _ hmem
  have hlater : (liveVisits h.later).map (fun v => (v.files.pid, v.shown q)) =
      (liveVisits h.later).map (fun v => (h.key (v.reading q).owner, (v.reading q).value)) := by
    apply List.map_congr_left
    intro v hmem
    apply hpair
    rw [History.samples, liveVisits_cons]
    exact List.mem_append_right _ hmem
  have hone : shownIn q (h.first.visits.map Visited.files) =
      (liveVisits [h.first]).map (fun v => (v.files.pid, v.shown q)) := by
    rw [← shownIn_samples]
    simp
  rw [History.samples, metersOf, foldl_heeded, Sample.heeded, hone, shownIn_samples, hfirst, hlater]
  simp only [Meter.advanceAll, Meter.rebaseAll, List.foldl_map]
  rfl

omit [DecidableEq O] in
theorem map_instant_sublist (q : Quantity) (visits : List (Visited O)) :
    (visits.map (fun v => v.instant q)).Sublist (instants visits) := by
  induction visits with
  | nil => exact List.Sublist.slnil
  | cons v visits ih =>
    cases q with
    | user => exact (List.Sublist.cons _ ih).cons_cons _
    | system => exact (List.Sublist.cons _ ih).cons_cons _
    | read => exact List.Sublist.cons _ (ih.cons_cons _)
    | write => exact List.Sublist.cons _ (ih.cons_cons _)

omit [DecidableEq O] in
theorem instant_mem {h : History O} {v : Visited O} (hmem : v ∈ liveVisits h.samples)
    (q : Quantity) : v.instant q ∈ instants (liveVisits h.samples) :=
  (map_instant_sublist q _).subset (List.mem_map_of_mem hmem)

omit [DecidableEq O] in
theorem reading_follows {h : History O} {a b : Visited O} {q : Quantity}
    (hb : (a.instant q).Before h.pidOf (b.instant q)) (hpa : h.pidOf (a.instant q).owner = a.files.pid)
    (hpb : h.pidOf (b.instant q).owner = b.files.pid)
    (hl : a.files.pid = b.files.pid → a.tells q = false → b.tells q = true →
      (a.instant q).used (b.instant q).owner q = 0) :
    Follows h.key (a.reading q) (b.reading q) := by
  constructor
  · rintro (o | k)
    · exact hb.1 o q
    · exact le_refl 0
  · intro hkey hne
    rw [reading_key hpa, reading_key hpb] at hkey
    cases htb : b.tells q with
    | false => simp [Visited.reading, htb]
    | true =>
      cases hta : a.tells q with
      | false => simpa [Visited.reading, htb] using hl hkey hta htb
      | true =>
        have hown : (a.instant q).owner ≠ (b.instant q).owner := by
          intro heq
          apply hne
          simp [Visited.reading, hta, htb, heq]
        simpa [Visited.reading, htb] using hb.2 (by rw [hpa, hpb, hkey]) hown q

omit [DecidableEq O] in
theorem History.Valid.fits {h : History O} (hv : h.Valid) {q : Quantity} (hq : h.Trusted q) :
    Fits h.key (h.floor q) ((liveVisits h.samples).map (fun v => v.reading q)) := by
  refine ⟨?_, ?_, ?_⟩
  · rintro (o | k)
    · exact hv.pos o q
    · exact le_refl 0
  · intro r hr o
    obtain ⟨v, hmem, rfl⟩ := List.mem_map.1 hr
    cases o with
    | inl o => exact hv.after _ (instant_mem hmem q) o q
    | inr k => exact le_refl 0
  · rw [List.pairwise_map]
    have hord : (liveVisits h.samples).Pairwise (fun a b => (a.instant q).Before h.pidOf (b.instant q)) := by
      have := hv.ordered.sublist (map_instant_sublist q _)
      rwa [List.pairwise_map] at this
    refine List.Pairwise.imp_of_mem ?_ (hord.and hq.lost)
    intro a b ha hb hab
    exact reading_follows hab.1 (hv.pids a ha q) (hv.pids b hb q) hab.2

theorem base_snoc (start : O → ℤ) (q : Quantity) (visits : List (Visited O)) (v : Visited O) :
    base start q (visits ++ [v]) = if v.tells q then
      Function.update (base start q visits) (v.instant q).owner (v.own q) else base start q visits := by
  simp [base]

theorem known_reading (h : History O) (q : Quantity) (visits : List (Visited O)) (o : O) :
    known (h.floor q) (visits.map (fun v => v.reading q)) (.inl o) = base (fun o => h.start o q) q visits o := by
  induction visits using List.reverseRecOn with
  | nil => rfl
  | append_singleton visits v ih =>
    rw [List.map_append, List.map_singleton, known_snoc, base_snoc, Function.update_apply, ih]
    cases ht : v.tells q with
    | false => simp [Visited.reading, ht]
    | true => simp [Visited.reading, ht, Function.update_apply, Visit.value, Visited.own]

theorem known_pid (h : History O) (q : Quantity) (visits : List (Visited O)) (k : ℕ) :
    known (h.floor q) (visits.map (fun v => v.reading q)) (.inr k) = 0 := by
  induction visits using List.reverseRecOn with
  | nil => rfl
  | append_singleton visits v ih =>
    rw [List.map_append, List.map_singleton, known_snoc, Function.update_apply]
    split_ifs with hk
    · rw [Visit.value, ← hk]
      rfl
    · exact ih

theorem instant_owner_mem {h : History O} {v : Visited O} (hv : v ∈ liveVisits h.samples) (q : Quantity) :
    (v.instant q).owner ∈ h.observed := by
  rw [History.observed, List.mem_toFinset, List.mem_flatMap]
  refine ⟨v, hv, ?_⟩
  cases q <;> simp [Visited.instant]

theorem History.Valid.total_le {h : History O} (hv : h.Valid) {q : Quantity} (hq : h.Trusted q) :
    (metersOf h.samples q).total ≤ h.consumed q := by
  rw [metersOf_history hv hq]
  have hfits := hv.fits hq
  rw [History.samples, liveVisits_cons, List.map_append] at hfits
  have hle := total_le_used (Sum.elim (fun o => h.finish o q) (fun _ => 0)) hfits ?_ ?_
    (S := h.observed.disjSum ((liveVisits h.later).map (fun v => v.files.pid)).toFinset) ?_
  · refine le_trans hle (le_of_eq ?_)
    rw [Finset.sum_disjSum, History.consumed]
    simp only [known_reading, known_pid, Sum.elim_inl, Sum.elim_inr, sub_self, Finset.sum_const_zero, add_zero]
  · rintro (o | k)
    · exact hv.grows o q
    · exact le_refl 0
  · intro r hr o
    rw [← List.map_append, ← liveVisits_cons] at hr
    obtain ⟨v, hmem, rfl⟩ := List.mem_map.1 hr
    cases o with
    | inl o => exact hv.before _ (instant_mem hmem q) o q
    | inr k => exact le_refl 0
  · intro r hr
    obtain ⟨v, hmem, rfl⟩ := List.mem_map.1 hr
    have hall : v ∈ liveVisits h.samples := by
      rw [History.samples, liveVisits_cons]
      exact List.mem_append_right _ hmem
    unfold Visited.reading
    split_ifs
    · simpa using instant_owner_mem hall q
    · simpa using ⟨v, hmem, rfl⟩

omit [DecidableEq O] in
theorem shownIn_mem {q : Quantity} {s : Sample O} {samples : List (Sample O)} (hs : s ∈ samples) {r : ℕ × ℤ}
    (hr : r ∈ shownIn q (s.visits.map Visited.files)) : ∃ v ∈ liveVisits samples, v.shown q = r.2 := by
  rw [shownIn_eq, List.mem_map] at hr
  obtain ⟨v, hv, rfl⟩ := hr
  rw [List.mem_filter] at hv
  exact ⟨v, List.mem_filter.2 ⟨List.mem_flatMap.2 ⟨s, hs, hv.1⟩, hv.2⟩, rfl⟩

omit [DecidableEq O] in
theorem heeded_within {s : Sample O} {q : Quantity} {bound : ℤ} {m : Meter ℕ} (h : m.Within bound) (first : Bool)
    (hs : ∀ r ∈ shownIn q (s.visits.map Visited.files), 0 ≤ r.2 ∧ r.2 ≤ bound) : (s.heeded first q m).Within bound := by
  unfold Sample.heeded
  generalize shownIn q (s.visits.map Visited.files) = readings at hs
  induction readings generalizing m with
  | nil => exact h
  | cons r readings ih =>
    refine ih ?_ (fun r' hr' => hs r' (List.mem_cons_of_mem _ hr'))
    have hr := hs r List.mem_cons_self
    cases first with
    | true => exact h.rebase r.1 hr.1
    | false => exact h.advance r.1 hr

omit [DecidableEq O] in
theorem metersOf_within {samples : List (Sample O)} {q : Quantity} {bound : ℤ}
    (h : ∀ v ∈ liveVisits samples, 0 ≤ v.shown q ∧ v.shown q ≤ bound) : (metersOf samples q).Within bound := by
  have hread : ∀ s ∈ samples, ∀ r ∈ shownIn q (s.visits.map Visited.files), 0 ≤ r.2 ∧ r.2 ≤ bound := by
    intro s hs r hr
    obtain ⟨v, hv, heq⟩ := shownIn_mem hs hr
    rw [← heq]
    exact h v hv
  have hempty : (Meter.empty : Meter ℕ).Within bound := ⟨by simp [Meter.empty], by simp [Meter.empty]⟩
  clear h
  cases samples with
  | nil => exact hempty
  | cons first later =>
    have hfirst := heeded_within hempty true (hread first List.mem_cons_self)
    rw [metersOf]
    generalize first.heeded true q Meter.empty = m at hfirst
    have hlater : ∀ s ∈ later, _ := fun s hs => hread s (List.mem_cons_of_mem _ hs)
    clear hread
    induction later generalizing m with
    | nil => exact hfirst
    | cons s later ih =>
      exact ih _ (heeded_within hfirst false (hlater s List.mem_cons_self))
        (fun s' hs' => hlater s' (List.mem_cons_of_mem _ hs'))

theorem number_lt (s : Text) : number s < 2 ^ 63 := by
  have hsigned : ∀ neg t, (parseSigned neg t).1 < 2 ^ 63 := by
    intro neg t
    unfold parseSigned
    split
    · norm_num
    · split_ifs <;> simp only <;> omega
  rw [number]
  unfold parseInt
  split
  · exact hsigned _ _
  · exact hsigned _ _
  · exact hsigned _ _

theorem readProcStat_lt {data : Option Text} {s : ProcStat} (h : readProcStat data = some s) :
    s.utime < 2 ^ 63 ∧ s.stime < 2 ^ 63 := by
  unfold readProcStat at h
  split at h
  · cases h
  · cases h
  · split_ifs at h
    cases h
    exact ⟨number_lt _, number_lt _⟩

omit [DecidableEq O] in
theorem shown_ticks_lt (v : Visited O) : v.shown .user < 2 ^ 63 ∧ v.shown .system < 2 ^ 63 := by
  unfold Visited.shown ProcFiles.live
  cases hs : readProcStat v.files.stat with
  | none => simp
  | some s =>
    have hlt := readProcStat_lt hs
    by_cases hz : s.state = "Z".toList
    · simp only [if_pos hz]
      norm_num
    · simp only [if_neg hz]
      exact hlt

def valuesIn (key : Text) (ls : List Text) : List ℤ := ls.flatMap (valuesOf key)

def Lone (key : Text) (data : Text) : Prop :=
  ∀ before line after, lines data = before ++ line :: after → valuesOf key line ≠ [] →
    (valuesIn key (before ++ after)).sum + (valuesOf key line).dropLast.sum = 0

theorem ioField_fold (line : List Text) (acc : ℤ × ℤ) :
    line.foldl ioField acc =
      (((line.filterMap (fun field => (cut '=' field).bind
          (fun kv => if kv.1 = "rbytes".toList then some (number kv.2) else none))).getLast?).getD acc.1,
        ((line.filterMap (fun field => (cut '=' field).bind
          (fun kv => if kv.1 = "wbytes".toList then some (number kv.2) else none))).getLast?).getD acc.2) := by
  induction line using List.reverseRecOn with
  | nil => rfl
  | append_singleton line field ih =>
    rw [List.foldl_append, ih, List.foldl_cons, List.foldl_nil, List.filterMap_append, List.filterMap_append, ioField]
    have hne : "rbytes".toList ≠ "wbytes".toList := by decide
    generalize "rbytes".toList = r at hne ⊢
    generalize "wbytes".toList = w at hne ⊢
    cases hcut : cut '=' field with
    | none => simp [hcut]
    | some kv =>
      simp only [List.filterMap_cons, List.filterMap_nil, hcut, Option.bind_some]
      by_cases hr : kv.1 = r
      · simp [hr, hne]
      · by_cases hw : kv.1 = w
        · simp [hw, hne.symm]
        · simp [hr, hw]

theorem readLines_eq (ls : List Text) (acc : ℤ × ℤ) :
    ls.foldl (fun acc line => (fields line).foldl ioField acc) acc =
      ((valuesIn "rbytes".toList ls).getLast?.getD acc.1, (valuesIn "wbytes".toList ls).getLast?.getD acc.2) := by
  induction ls using List.reverseRecOn with
  | nil => rfl
  | append_singleton ls line ih =>
    rw [List.foldl_append, ih, List.foldl_cons, List.foldl_nil, ioField_fold]
    generalize "rbytes".toList = r
    generalize "wbytes".toList = w
    simp [valuesIn, valuesOf, List.getLast?_append, Option.getD_or]

theorem sum_valuesIn (key : Text) (ls : List Text) :
    (valuesIn key ls).sum = (ls.map (fun l => (valuesOf key l).sum)).sum := by
  induction ls with
  | nil => rfl
  | cons l ls ih =>
    simp only [valuesIn, List.flatMap_cons, List.sum_append, List.map_cons, List.sum_cons] at ih ⊢
    rw [ih]

theorem totalOf_eq (key data : Text) : totalOf key data = (valuesIn key (lines data)).sum := (sum_valuesIn key _).symm

theorem sum_valuesIn_perm {key : Text} {ls ls' : List Text} (h : ls.Perm ls') :
    (valuesIn key ls).sum = (valuesIn key ls').sum := by
  rw [sum_valuesIn, sum_valuesIn]
  exact (h.map _).sum_eq

theorem getLast_add_dropLast {l : List ℤ} (h : l ≠ []) : l.sum = l.dropLast.sum + l.getLast?.getD 0 := by
  conv_lhs => rw [← List.dropLast_append_getLast h]
  rw [List.getLast?_eq_getLast_of_ne_nil h]
  simp

theorem exists_last_named (key : Text) (ls : List Text) :
    valuesIn key ls = [] ∨ ∃ before line after, ls = before ++ line :: after ∧ valuesOf key line ≠ [] ∧
    valuesIn key after = [] := by
  induction ls with
  | nil => exact .inl rfl
  | cons l ls ih =>
    cases ih with
    | inl hnil =>
      by_cases hl : valuesOf key l = []
      · left
        simp only [valuesIn, List.flatMap_cons] at hnil ⊢
        rw [hl, hnil, List.append_nil]
      · exact .inr ⟨[], l, ls, rfl, hl, hnil⟩
    | inr h =>
      obtain ⟨before, line, after, hls, hline, hafter⟩ := h
      exact .inr ⟨l :: before, line, after, by rw [hls, List.cons_append], hline, hafter⟩

theorem sum_at_last {key : Text} {before after : List Text} {line : Text} (h : valuesOf key line ≠ []) :
    (valuesIn key (before ++ line :: after)).sum =
      (valuesIn key (before ++ after)).sum + (valuesOf key line).dropLast.sum +
      (valuesOf key line).getLast?.getD 0 := by
  have hsplit := getLast_add_dropLast h
  simp only [valuesIn, List.flatMap_append, List.flatMap_cons, List.sum_append]
  omega

theorem getLast_valuesIn {key : Text} {before after : List Text} {line : Text} (h : valuesOf key line ≠ [])
    (hafter : valuesIn key after = []) :
    (valuesIn key (before ++ line :: after)).getLast?.getD 0 = (valuesOf key line).getLast?.getD 0 := by
  unfold valuesIn at hafter ⊢
  rw [List.flatMap_append, List.flatMap_cons, hafter, List.append_nil, List.getLast?_append,
    List.getLast?_eq_getLast_of_ne_nil h]
  rfl

theorem Lone.total {key data : Text} (h : Lone key data) {line : Text} (hmem : line ∈ lines data)
    (hline : valuesOf key line ≠ []) :
    totalOf key data = (valuesOf key line).getLast?.getD 0 := by
  obtain ⟨before, after, hlines⟩ := List.append_of_mem hmem
  have hlone := h before line after hlines hline
  rw [totalOf_eq, hlines, sum_at_last hline]
  omega

theorem last_eq_total_iff (key data : Text) :
    (∀ data', (lines data').Perm (lines data) → (valuesIn key (lines data')).getLast?.getD 0 = totalOf key data) ↔
      Lone key data := by
  constructor
  · intro h before line after hlines hline
    have hperm : (before ++ after ++ [line]).Perm (lines data) := by
      rw [hlines, List.append_assoc]
      exact (List.perm_append_singleton line after).append_left before
    obtain ⟨data', hdata'⟩ := exists_lines hperm
    have hlast := h data' (hdata' ▸ hperm)
    rw [hdata', getLast_valuesIn hline rfl, totalOf_eq, hlines, sum_at_last hline] at hlast
    omega
  · intro h data' hperm
    cases exists_last_named key (lines data') with
    | inl hnil => rw [totalOf_eq, ← sum_valuesIn_perm hperm, hnil]; rfl
    | inr hnamed =>
      obtain ⟨before, line, after, hlines, hline, hafter⟩ := hnamed
      have hmem : line ∈ lines data := hperm.subset (by rw [hlines]; simp)
      rw [hlines, getLast_valuesIn hline hafter, h.total hmem hline]

def ResourceCollector.usesCgroup (c : ResourceCollector) (files : CgroupFiles) : Prop :=
  c.cgroupOK = true ∧ c.cgroupPath ≠ [] ∧ c.cgroupAttachmentVerified = true ∧
    (files.cpuStat.bind readCpuStat).isSome = true

theorem finish_bytes {c : ResourceCollector} (files : CgroupFiles) (h : c.usesCgroup files) (overlapped : Bool)
    (tsEnd : ℤ) :
    (c.finish overlapped tsEnd files).diskSource = "cgroup-v2-io.stat" ∧
      ((c.finish overlapped tsEnd files).readBytesDelta, (c.finish overlapped tsEnd files).writeBytesDelta) =
        readIoStat files.ioStat := by
  obtain ⟨hok, hpath, hver, hcpu⟩ := h
  obtain ⟨cpu, hcpu⟩ := Option.isSome_iff_exists.1 hcpu
  simp [ResourceCollector.finish, hok, hpath, hver, readCgroupCounters, hcpu, ResourceStats.merge]

theorem finish_procfs {c : ResourceCollector} (files : CgroupFiles) (h : ¬ c.usesCgroup files) (overlapped : Bool)
    (tsEnd : ℤ) :
    (c.finish overlapped tsEnd files).diskSource = "procfs-process-tree" := by
  unfold ResourceCollector.finish
  split_ifs with hok hver
  · rfl
  · have hnone : readCgroupCounters files = none := by
      cases hcpu : files.cpuStat.bind readCpuStat with
      | none => simp [readCgroupCounters, hcpu]
      | some cpu =>
        exfalso
        apply h
        simp_all [ResourceCollector.usesCgroup]
    simp only [hnone]
    rfl
  · rfl

omit [DecidableEq O] in
theorem trusted_of_tells {h : History O} {q : Quantity} (hq : ∀ v ∈ liveVisits h.samples, v.tells q = true) :
    h.Trusted q := by
  constructor
  · intro v hmem hfalse
    rw [hq v hmem] at hfalse
    cases hfalse
  · apply List.pairwise_of_forall_mem_list
    intro a ha b _ _ hfalse
    rw [hq a ha] at hfalse
    cases hfalse

structure SecondsBounded (seconds : ℚ) (ticks : List ℤ) (consumed : ℤ) : Prop where
  fit : ∀ t ∈ ticks, t < 2 ^ 63
  sum : ticks.sum ≤ consumed
  rounded : seconds ≤ (1 + 1 / 2 ^ 53) ^ (ticks.length + 2) * (consumed / 100)
  unrounded : RoundsDown ticks → seconds ≤ consumed / 100

structure BytesBounded (bytes : ℤ) (increments : List ℤ) (consumed : ℤ) : Prop where
  sum : increments.sum ≤ consumed
  unwrapped : consumed < 2 ^ 63 → bytes = increments.sum

omit [DecidableEq O] in
theorem History.Valid.shown_nonneg {h : History O} (hv : h.Valid) {q : Quantity}
    (hq : ∀ v ∈ liveVisits h.samples, v.tells q = true) : ∀ v ∈ liveVisits h.samples, 0 ≤ v.shown q := by
  intro v hmem
  have htells := hq v hmem
  rw [Visited.tells, decide_eq_true_eq] at htells
  rw [htells]
  exact le_trans (hv.pos _ _) (hv.after _ (instant_mem hmem q) _ _)

theorem History.Valid.secondsBounded {h : History O} (hv : h.Valid) {q : Quantity}
    (hq : ∀ v ∈ liveVisits h.samples, v.tells q = true) (hlt : ∀ v : Visited O, v.shown q < 2 ^ 63) {seconds : ℚ}
    (hsec : seconds = (metersOf h.samples q).gains.foldl addSeconds 0) :
    SecondsBounded seconds (metersOf h.samples q).gains (h.consumed q) := by
  have hshown : ∀ v ∈ liveVisits h.samples, 0 ≤ v.shown q ∧ v.shown q ≤ 2 ^ 63 - 1 := by
    intro v hmem
    have := hlt v
    exact ⟨hv.shown_nonneg hq v hmem, by omega⟩
  have hsum := hv.total_le (trusted_of_tells hq)
  rw [Meter.total] at hsum
  have hcast : ((metersOf h.samples q).gains.sum : ℚ) ≤ h.consumed q := by exact_mod_cast hsum
  refine ⟨?_, hsum, ?_, ?_⟩
  · intro t ht
    have := ((metersOf_within hshown).gains t ht).2
    omega
  · rw [hsec]
    apply le_trans (seconds_le (gains_nonneg h.samples q))
    gcongr
  · intro hdown
    rw [hsec]
    have := hdown.seconds_le
    linarith

theorem History.Valid.bytesBounded {h : History O} (hv : h.Valid) {q : Quantity} (hq : h.Trusted q) {bytes : ℤ}
    (hbytes : bytes = (metersOf h.samples q).gains.foldl addBytes 0) :
    BytesBounded bytes (metersOf h.samples q).gains (h.consumed q) := by
  have hsum := hv.total_le hq
  rw [Meter.total] at hsum
  refine ⟨hsum, ?_⟩
  intro hlt
  have hpos := List.sum_nonneg (gains_nonneg h.samples q)
  rw [hbytes, bytes_eq, int64_of_lt hpos (by omega)]

/-- Samples only ever add, the seconds exceed the use of the observed processes by no more than their roundings, and
bytes do not exceed it as long as the readings can be trusted; the bytes of `io.stat` are the sums over its lines, in
any order, just when a single value of each key counts. -/
theorem collected_totals (h : History O) (hv : h.Valid) (intervalMS : ℤ) (path : Text) (setupError : String)
    (c : ResourceCollector) (overlapped : Bool) (tsEnd : ℤ) (files : CgroupFiles) (io : Text) :
    (∃ ds : List (Sample O) → Quantity → List ℤ,
      (∀ samples more q, ds samples q <+: ds (samples ++ more) q ∧ ∀ d ∈ ds samples q, 0 ≤ d) ∧
      (∀ samples, AddsUp (collected (startResourceCollectorPrepared intervalMS path setupError) samples) (ds samples)) ∧
      SecondsBounded (collected (startResourceCollectorPrepared intervalMS path setupError) h.samples).cpuUserSeconds
        (ds h.samples .user) (h.consumed .user) ∧
      SecondsBounded (collected (startResourceCollectorPrepared intervalMS path setupError) h.samples).cpuSysSeconds
        (ds h.samples .system) (h.consumed .system) ∧
      (h.Trusted .read →
        BytesBounded (collected (startResourceCollectorPrepared intervalMS path setupError) h.samples).readBytes
          (ds h.samples .read) (h.consumed .read)) ∧
      (h.Trusted .write →
        BytesBounded (collected (startResourceCollectorPrepared intervalMS path setupError) h.samples).writeBytes
          (ds h.samples .write) (h.consumed .write))) ∧
    ((∀ io', (lines io').Perm (lines io) →
      (c.finish overlapped tsEnd { files with ioStat := some io' }).diskSource = "cgroup-v2-io.stat" →
        (c.finish overlapped tsEnd { files with ioStat := some io' }).readBytesDelta = totalOf "rbytes".toList io ∧
        (c.finish overlapped tsEnd { files with ioStat := some io' }).writeBytesDelta = totalOf "wbytes".toList io) ↔
      (¬ c.usesCgroup files ∨ (Lone "rbytes".toList io ∧ Lone "wbytes".toList io))) := by
  have hfresh : Metered (startResourceCollectorPrepared intervalMS path setupError) (fun _ => Meter.empty) :=
    ⟨⟨rfl, rfl, rfl, rfl⟩, fun q => by cases q <;> rfl⟩
  have hadds := fun samples : List (Sample O) => (metered_collected rfl hfresh samples).toAddsUp
  constructor
  · refine ⟨fun samples q => (metersOf samples q).gains, ?_, hadds, ?_, ?_, ?_, ?_⟩
    · exact fun samples more q => ⟨gains_metersOf samples more q, gains_nonneg samples q⟩
    · exact hv.secondsBounded (fun v hmem => (hv.ticks v hmem).1) (fun v => (shown_ticks_lt v).1) (hadds h.samples).user
    · exact hv.secondsBounded (fun v hmem => (hv.ticks v hmem).2) (fun v => (shown_ticks_lt v).2)
        (hadds h.samples).system
    · exact fun hq => hv.bytesBounded hq (hadds h.samples).read
    · exact fun hq => hv.bytesBounded hq (hadds h.samples).write
  · by_cases huses : c.usesCgroup files
    · have hbytes : ∀ io', _ := fun io' => finish_bytes { files with ioStat := some io' } huses overlapped tsEnd
      simp only [readIoStat, readLines_eq, Prod.mk.injEq] at hbytes
      simp only [(hbytes _).1, (hbytes _).2.1, (hbytes _).2.2, huses, not_true_eq_false, false_or, forall_true_left]
      rw [← last_eq_total_iff, ← last_eq_total_iff]
      exact ⟨fun h => ⟨fun io' hp => (h io' hp).1, fun io' hp => (h io' hp).2⟩,
        fun h io' hp => ⟨h.1 io' hp, h.2 io' hp⟩⟩
    · refine iff_of_true ?_ (.inl huses)
      intro io' _ hsource
      rw [finish_procfs { files with ioStat := some io' } huses] at hsource
      exact absurd hsource (by decide)

def shellUse (ticks bytes : ℤ) : Unit → Quantity → ℤ
  | _, .user => ticks
  | _, .system => 2
  | _, .read => bytes
  | _, .write => 0

def shellVisit (utime : String) (io : Option Text) (ticks bytes : ℤ) : Visited Unit :=
  ⟨⟨7, some ("7 (sh) S 1 7 0 0 0 0 0 0 0 0 ".toList ++ utime.toList ++ " 2".toList), none, io⟩,
    ⟨(), shellUse ticks bytes⟩, ⟨(), shellUse ticks bytes⟩⟩

-- A shell that has used 5, 15 and 35 ticks and has read 1000, 1200 and 1500 bytes.
def shellHistory (io : Option Text) : History Unit :=
  { pidOf := fun _ => 7
    start := shellUse 5 1000
    finish := shellUse 35 1500
    first := ⟨[shellVisit "5" (some "read_bytes: 1000\nwrite_bytes: 0\n".toList) 5 1000], 0, none⟩
    later := [⟨[shellVisit "15" io 15 1200], 20, none⟩,
      ⟨[shellVisit "35" (some "read_bytes: 1500\nwrite_bytes: 0\n".toList) 35 1500], 40, none⟩] }

theorem shellUse_mono {t u a b : ℤ} (ht : t ≤ u) (h : a ≤ b) (o : Unit) (q : Quantity) :
    shellUse t a o q ≤ shellUse u b o q := by
  cases q <;> simp [shellUse, h, ht]

theorem shell_live (io : Option Text) : liveVisits (shellHistory io).samples =
    [("5", some "read_bytes: 1000\nwrite_bytes: 0\n".toList, 5, 1000), ("15", io, 15, 1200),
      ("35", some "read_bytes: 1500\nwrite_bytes: 0\n".toList, 35, 1500)].map
        (fun r : String × Option Text × ℤ × ℤ => shellVisit r.1 r.2.1 r.2.2.1 r.2.2.2) := rfl

theorem shell_instants (io : Option Text) : instants (liveVisits (shellHistory io).samples) =
    [(5, 1000), (5, 1000), (15, 1200), (15, 1200), (35, 1500), (35, 1500)].map
      (fun u : ℤ × ℤ => (⟨(), shellUse u.1 u.2⟩ : Instant Unit)) := rfl

theorem shell_valid (io : Option Text) : (shellHistory io).Valid := by
  have hrange : ∀ u ∈ [((5 : ℤ), (1000 : ℤ)), (5, 1000), (15, 1200), (15, 1200), (35, 1500), (35, 1500)],
      (5 ≤ u.1 ∧ u.1 ≤ 35) ∧ 1000 ≤ u.2 ∧ u.2 ≤ 1500 := by decide
  have hsorted : [((5 : ℤ), (1000 : ℤ)), (5, 1000), (15, 1200), (15, 1200), (35, 1500), (35, 1500)].Pairwise
      (fun u v => u.1 ≤ v.1 ∧ u.2 ≤ v.2) := by decide
  have hinst := shell_instants io
  generalize [((5 : ℤ), (1000 : ℤ)), (5, 1000), (15, 1200), (15, 1200), (35, 1500), (35, 1500)] =
    uses at hrange hsorted hinst
  refine ⟨?_, shellUse_mono (by decide) (by decide), ?_, ?_, ?_, ?_, ?_⟩
  · intro o q
    cases q <;> simp [shellHistory, shellUse]
  · intro i hi
    rw [hinst, List.mem_map] at hi
    obtain ⟨u, hu, rfl⟩ := hi
    exact shellUse_mono (hrange u hu).1.1 (hrange u hu).2.1
  · intro i hi
    rw [hinst, List.mem_map] at hi
    obtain ⟨u, hu, rfl⟩ := hi
    exact shellUse_mono (hrange u hu).1.2 (hrange u hu).2.2
  · rw [hinst, List.pairwise_map]
    exact hsorted.imp (fun h => ⟨shellUse_mono h.1 h.2, fun _ hne => absurd rfl hne⟩)
  · intro v hv _
    rw [shell_live, List.mem_map] at hv
    obtain ⟨r, _, rfl⟩ := hv
    rfl
  · intro v hv
    rw [shell_live] at hv
    simp only [List.map_cons, List.map_nil, List.mem_cons, List.not_mem_nil, or_false] at hv
    rcases hv with rfl | rfl | rfl
    · exact ⟨rfl, rfl⟩
    · exact ⟨rfl, rfl⟩
    · exact ⟨rfl, rfl⟩

def deviceLines : Text := "8:0 rbytes=100 wbytes=0 rios=4\n8:16 rbytes=50 wbytes=7 rios=2\n".toList

def verifiedCollector : ResourceCollector := startResourceCollectorPrepared 20 "/sys/fs/cgroup/clawbox-x".toList ""

def cgroupOf (io : Text) : CgroupFiles :=
  { cpuStat := some "usage_usec 49123\nuser_usec 0\nsystem_usec 0\n".toList
    memoryPeak := none
    ioStat := some io
    pidsCurrent := none }

theorem totals_missed :
    ((verifiedCollector.finish false 0 (cgroupOf deviceLines)).diskSource = "cgroup-v2-io.stat" ∧
      (verifiedCollector.finish false 0 (cgroupOf deviceLines)).readBytesDelta = 50 ∧
      totalOf "rbytes".toList deviceLines = 150) ∧
    (shellHistory none).Valid ∧
      (collected (startResourceCollectorPrepared 20 [] "") (shellHistory none).samples).readBytes = 1500 ∧
      (shellHistory none).consumed .read = 500 ∧
      ((shellHistory none).consumed .user : ℚ) / 100 <
        (collected (startResourceCollectorPrepared 20 [] "") (shellHistory none).samples).cpuUserSeconds := by
  refine ⟨⟨by decide +kernel, by decide +kernel, by decide +kernel⟩, shell_valid none, ?_, ?_, ?_⟩
  · decide +kernel
  · decide +kernel
  · decide +kernel

theorem collected_totals_shell :
    (∃ ds, SecondsBounded (collected (startResourceCollectorPrepared 20 [] "")
        (shellHistory (some "read_bytes: 1200\nwrite_bytes: 0\n".toList)).samples).cpuUserSeconds ds 30) ∧
      ∃ ds, BytesBounded (collected (startResourceCollectorPrepared 20 [] "")
        (shellHistory (some "read_bytes: 1200\nwrite_bytes: 0\n".toList)).samples).readBytes ds 500 := by
  have htells : ∀ v ∈ liveVisits (shellHistory (some "read_bytes: 1200\nwrite_bytes: 0\n".toList)).samples,
      v.tells .read = true := by decide +kernel
  obtain ⟨⟨ds, _, _, huser, _, hread, _⟩, _⟩ :=
    collected_totals (shellHistory (some "read_bytes: 1200\nwrite_bytes: 0\n".toList)) (shell_valid _) 20 [] ""
      verifiedCollector false 0 (cgroupOf deviceLines) deviceLines
  exact ⟨⟨_, huser⟩, ⟨_, hread (trusted_of_tells htells)⟩⟩

end ClawBox.Collector
