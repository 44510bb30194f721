import ClawBox.Lib.Intervals
import Mathlib.Data.List.Sort
import Mathlib.Data.Prod.Lex

namespace ClawBox.Timing

open Intervals MeasureTheory

structure Span where
  stage : String
  startNs : ℤ
  endNs : ℤ
  deriving DecidableEq

def waitStages : List String := ["admission.condition_wait", "admission.eviction_wait", "placement.cpu_capacity_wait"]

def lockWaitStages : List String :=
  ["admission.lock.acquire", "admission.condition.reacquire", "admission.lifecycle_reacquire"]

def mergeStep (merged : List (ℤ × ℤ)) (p : ℤ × ℤ) : List (ℤ × ℤ) :=
  match merged.getLast? with
  | some last => if p.1 ≤ last.2 then merged.dropLast ++ [(last.1, max last.2 p.2)] else merged ++ [p]
  | none => merged ++ [p]

def mergedIntervals (intervals : List (ℤ × ℤ)) : List (ℤ × ℤ) :=
  (intervals.insertionSort fun p q => toLex p ≤ toLex q).foldl mergeStep []

def sweep : List (ℤ × ℤ) → List (ℤ × ℤ) → ℤ → ℤ
  | w :: waits, l :: locks, overlap =>
    if w.2 ≤ l.2 then sweep waits (l :: locks) (overlap + max 0 (min w.2 l.2 - max w.1 l.1))
    else sweep (w :: waits) locks (overlap + max 0 (min w.2 l.2 - max w.1 l.1))
  | _, _, overlap => overlap
  termination_by waits locks => waits.length + locks.length

def windowed (records : List Span) (start stop : ℤ) : List (ℤ × ℤ) :=
  (records.filter fun s => s.stage ∈ waitStages ∧ s.endNs > start ∧ s.startNs < stop).map fun s =>
    (max start s.startNs, min stop s.endNs)

def lockSpans (records : List Span) : List (ℤ × ℤ) :=
  (records.filter fun s => s.stage ∈ lockWaitStages).map fun s => (s.startNs, s.endNs)

def resourceWaitNs (records : List Span) (start stop : ℤ) : ℤ :=
  ((mergedIntervals (windowed records start stop)).map fun w => w.2 - w.1).sum -
    sweep (mergedIntervals (windowed records start stop)) (mergedIntervals (lockSpans records)) 0

variable {l m : List (ℤ × ℤ)} {p : ℤ × ℤ} {records : List Span} {start stop : ℤ}

structure Merged (merged : List (ℤ × ℤ)) (l : List (ℤ × ℤ)) : Prop where
  separated : Separated merged
  region : region merged = region l
  closedRegion : closedRegion merged = closedRegion l
  starts : ∀ p ∈ merged, ∃ q ∈ l, p.1 = q.1

theorem Merged.nil : Merged [] [] := ⟨.nil, rfl, rfl, by simp⟩

theorem union_joined {q : ℤ × ℤ} (hq : q.1 ≤ p.1) (hp : p.1 ≤ p.2) (hle : p.1 ≤ q.2) :
    region [(q.1, max q.2 p.2)] = region [q] ∪ region [p] ∧ closedRegion [(q.1, max q.2 p.2)] = closedRegion
    [q] ∪ closedRegion [p] := by
  have h1 : (q.1 : ℝ) ≤ p.1 := Int.cast_le.mpr hq
  have h2 : (p.1 : ℝ) ≤ q.2 := Int.cast_le.mpr hle
  have h3 : (p.1 : ℝ) ≤ p.2 := Int.cast_le.mpr hp
  simp only [region_singleton, closedRegion_singleton, Int.cast_max]
  rw [Set.Ico_union_Ico' h2 (h1.trans h3), Set.Icc_union_Icc' h2 (h1.trans h3), min_eq_left h1]
  exact ⟨rfl, rfl⟩

theorem Merged.step (h : Merged m l) (hp : p.1 ≤ p.2) (hl : ∀ q ∈ l, q.1 ≤ p.1) :
    Merged (mergeStep m p) (l ++ [p]) := by
  have hstart : ∀ q ∈ m, q.1 ≤ p.1 := by
    intro q hq
    obtain ⟨x, hx, he⟩ := h.starts q hq
    rw [he]
    exact hl x hx
  have hold : ∀ q ∈ m, ∃ x ∈ l ++ [p], q.1 = x.1 := by
    intro q hq
    obtain ⟨x, hx, he⟩ := h.starts q hq
    exact ⟨x, List.mem_append_left _ hx, he⟩
  have hnew : (∀ q ∈ m, q.2 < p.1) → Merged (m ++ [p]) (l ++ [p]) := by
    intro hlt
    refine ⟨⟨?_, ?_⟩, ?_, ?_, ?_⟩
    · intro q hq
      rcases List.mem_append.mp hq with hq | hq
      · exact h.separated.proper q hq
      · rwa [List.mem_singleton.mp hq]
    · refine List.pairwise_append.mpr ⟨h.separated.apart, List.pairwise_singleton _ _, fun q hq x hx => ?_⟩
      rw [List.mem_singleton.mp hx]
      exact hlt q hq
    · rw [region_append, region_append, h.region]
    · rw [closedRegion_append, closedRegion_append, h.closedRegion]
    · intro q hq
      rcases List.mem_append.mp hq with hq | hq
      · exact hold q hq
      · exact ⟨p, List.mem_append_right _ (List.mem_singleton_self p), by rw [List.mem_singleton.mp hq]⟩
  unfold mergeStep
  cases hlast : m.getLast? with
  | none =>
    rw [List.getLast?_eq_none_iff] at hlast
    exact hnew (by simp [hlast])
  | some last =>
    obtain ⟨init, rfl⟩ := List.getLast?_eq_some_iff.mp hlast
    have hsep := List.pairwise_append.mp h.separated.apart
    have hbefore : ∀ q ∈ init, q.2 < last.1 := fun q hq => hsep.2.2 q hq last (List.mem_singleton_self last)
    have hmem : last ∈ init ++ [last] := List.mem_append_right _ (List.mem_singleton_self last)
    have hproper := h.separated.proper last hmem
    dsimp only
    split_ifs with hle
    · rw [List.dropLast_concat]
      obtain ⟨hregion, hclosure⟩ := union_joined (hstart last hmem) hp hle
      refine ⟨⟨?_, ?_⟩, ?_, ?_, ?_⟩
      · intro q hq
        rcases List.mem_append.mp hq with hq | hq
        · exact h.separated.proper q (List.mem_append_left _ hq)
        · rw [List.mem_singleton.mp hq]
          exact hproper.trans (le_max_left _ _)
      · refine List.pairwise_append.mpr ⟨hsep.1, List.pairwise_singleton _ _, fun q hq x hx => ?_⟩
        rw [List.mem_singleton.mp hx]
        exact hbefore q hq
      · rw [region_append, hregion, ← Set.union_assoc, ← region_append, h.region, region_append]
      · rw [closedRegion_append, hclosure, ← Set.union_assoc, ← closedRegion_append, h.closedRegion,
          closedRegion_append]
      · intro q hq
        rcases List.mem_append.mp hq with hq | hq
        · exact hold q (List.mem_append_left _ hq)
        · rw [List.mem_singleton.mp hq]
          exact hold last hmem
    · refine hnew fun q hq => ?_
      rcases List.mem_append.mp hq with hq | hq
      · have hlt := hbefore q hq
        omega
      · rw [List.mem_singleton.mp hq]
        omega

theorem Merged.foldl {rest : List (ℤ × ℤ)} (h : Merged m l) (hsorted : (l ++ rest).Pairwise fun p q => p.1 ≤ q.1)
    (hproper : ∀ p ∈ rest, p.1 ≤ p.2) : Merged (rest.foldl mergeStep m) (l ++ rest) := by
  induction rest generalizing l m with
  | nil => simpa using h
  | cons p rest ih =>
    rw [List.append_cons] at hsorted ⊢
    have hstep : Merged (mergeStep m p) (l ++ [p]) := by
      refine h.step (hproper p List.mem_cons_self) fun q hq => ?_
      rw [List.append_assoc] at hsorted
      exact (List.pairwise_append.mp hsorted).2.2 q hq p (by simp)
    exact ih hstep hsorted fun q hq => hproper q (List.mem_cons_of_mem _ hq)

theorem mergedIntervals_spec (hl : ∀ p ∈ l, p.1 ≤ p.2) :
    Separated (mergedIntervals l) ∧ region (mergedIntervals l) = region l ∧
    closedRegion (mergedIntervals l) = closedRegion l := by
  have hsorted : (l.insertionSort fun p q => toLex p ≤ toLex q).Pairwise fun p q => p.1 ≤ q.1 := by
    refine (List.pairwise_insertionSort (fun p q : ℤ × ℤ => toLex p ≤ toLex q) l).imp fun {p q} hpq => ?_
    rcases Prod.Lex.toLex_le_toLex.mp hpq with hlt | ⟨heq, -⟩
    · exact hlt.le
    · exact heq.le
  have hmem : ∀ p, p ∈ (l.insertionSort fun p q => toLex p ≤ toLex q) ↔ p ∈ l := fun p => List.mem_insertionSort _
  have h := Merged.nil.foldl (by simpa using hsorted)
    fun p hp => hl p ((hmem p).mp hp)
  rw [List.nil_append] at h
  exact ⟨h.separated, h.region.trans (region_congr hmem), h.closedRegion.trans (closedRegion_congr hmem)⟩

theorem sweep_eq (hl : Separated l) (hm : Separated m) (overlap : ℤ) :
    sweep l m overlap = overlap + (cells l ∩ cells m).card := by
  induction l, m, overlap using sweep.induct with
  | case1 w waits k locks overlap hle ih =>
    rw [sweep, if_pos hle, ih hl.tail hm, hl.card_inter_cons hm hle]
    ring
  | case2 w waits k locks overlap hle ih =>
    rw [sweep, if_neg hle, ih hl hm.tail, Finset.inter_comm, Finset.inter_comm (cells (w :: waits)),
      hm.card_inter_cons hl (by omega), min_comm k.2, max_comm k.1]
    ring
  | case3 l m overlap hne =>
    have hempty : cells l ∩ cells m = ∅ := by
      cases l with
      | nil => rfl
      | cons w waits =>
        cases m with
        | nil => exact Finset.inter_empty _
        | cons k locks => exact (hne w waits k locks rfl rfl).elim
    rw [sweep, hempty]
    · simp
    · exact hne

def spanned (stages : List String) (records : List Span) : Set ℝ :=
  {x | ∃ s ∈ records, s.stage ∈ stages ∧ (s.startNs : ℝ) ≤ x ∧ x < s.endNs}

theorem region_windowed : region (windowed records start stop) = spanned waitStages records ∩ Set.Ico
    (start : ℝ) stop := by
  ext x
  simp only [region, windowed, spanned, Set.mem_ofPred_eq, Set.mem_inter_iff, Set.mem_Ico, List.mem_map,
    List.mem_filter, decide_eq_true_eq]
  constructor
  · rintro ⟨_, ⟨s, ⟨hs, hstage, -, -⟩, rfl⟩, hle, hlt⟩
    rw [Int.cast_max, max_le_iff] at hle
    rw [Int.cast_min, lt_min_iff] at hlt
    exact ⟨⟨s, hs, hstage, hle.2, hlt.2⟩, hle.1, hlt.1⟩
  · rintro ⟨⟨s, hs, hstage, hle, hlt⟩, hstart, hstop⟩
    refine ⟨_, ⟨s, ⟨hs, hstage, ?_, ?_⟩, rfl⟩, ?_, ?_⟩
    · exact Int.cast_lt.mp (hstart.trans_lt hlt)
    · exact Int.cast_lt.mp (hle.trans_lt hstop)
    · rw [Int.cast_max]
      exact max_le hstart hle
    · rw [Int.cast_min]
      exact lt_min hstop hlt

theorem region_lockSpans : region (lockSpans records) = spanned lockWaitStages records := by
  ext x
  simp only [region, lockSpans, spanned, Set.mem_ofPred_eq, List.mem_map, List.mem_filter, decide_eq_true_eq]
  constructor
  · rintro ⟨_, ⟨s, ⟨hs, hstage⟩, rfl⟩, hx⟩
    exact ⟨s, hs, hstage, hx⟩
  · rintro ⟨s, hs, hstage, hx⟩
    exact ⟨_, ⟨s, ⟨hs, hstage⟩, rfl⟩, hx⟩

theorem windowed_proper (hr : ∀ s ∈ records, s.startNs ≤ s.endNs) (hw : start ≤ stop) :
    ∀ p ∈ windowed records start stop, p.1 ≤ p.2 := by
  intro p hp
  obtain ⟨s, hs, rfl⟩ := List.mem_map.mp hp
  obtain ⟨hs, hcond⟩ := List.mem_filter.mp hs
  have hle := hr s hs
  simp only [decide_eq_true_eq] at hcond
  dsimp only
  omega

theorem lockSpans_proper (hr : ∀ s ∈ records, s.startNs ≤ s.endNs) : ∀ p ∈ lockSpans records, p.1 ≤ p.2 := by
  intro p hp
  obtain ⟨s, hs, rfl⟩ := List.mem_map.mp hp
  exact hr s (List.mem_filter.mp hs).1

theorem resourceWaitNs_eq (hr : ∀ s ∈ records, s.startNs ≤ s.endNs) (hw : start ≤ stop) :
    (resourceWaitNs records start stop : ℝ) =
      volume.real ((spanned waitStages records ∩ Set.Ico (start : ℝ) stop) \ spanned lockWaitStages records) := by
  obtain ⟨hws, hwr, -⟩ := mergedIntervals_spec (windowed_proper hr hw)
  obtain ⟨hls, hlr, -⟩ := mergedIntervals_spec (lockSpans_proper hr)
  rw [← region_windowed, ← region_lockSpans, ← hwr, ← hlr]
  have hcells : region (mergedIntervals (windowed records start stop)) \ region (mergedIntervals (lockSpans records)) =
      {x : ℝ | ⌊x⌋ ∈ cells (mergedIntervals (windowed records start stop)) \
        cells (mergedIntervals (lockSpans records))} := by
    ext x
    simp only [Set.mem_sdiff, mem_region, Set.mem_ofPred_eq, Finset.mem_sdiff]
  rw [hcells, volume_floor, resourceWaitNs, sweep_eq hws hls, ← hws.card_cells]
  have hcard := Finset.card_inter_add_card_sdiff (cells (mergedIntervals (windowed records start stop)))
    (cells (mergedIntervals (lockSpans records)))
  push_cast [← hcard]
  ring

theorem spanned_congr {stages : List String} {other : List Span} (h : ∀ s, s ∈ other ↔ s ∈ records) :
    spanned stages other = spanned stages records := by
  ext x
  simp only [spanned, Set.mem_ofPred_eq, h]

theorem resourceWaitNs_bounds (hr : ∀ s ∈ records, s.startNs ≤ s.endNs) (hw : start ≤ stop) :
    0 ≤ resourceWaitNs records start stop ∧ resourceWaitNs records start stop ≤ stop - start := by
  have heq := resourceWaitNs_eq hr hw
  have hle : volume.real ((spanned waitStages records ∩ Set.Ico (start : ℝ) stop) \ spanned lockWaitStages records) ≤
      volume.real (Set.Ico (start : ℝ) stop) := by
    refine measureReal_mono ?_ (by simp [Real.volume_Ico])
    exact fun x hx => hx.1.2
  rw [Real.volume_real_Ico_of_le (Int.cast_le.mpr hw), ← heq] at hle
  constructor
  · exact_mod_cast heq ▸ measureReal_nonneg
  · exact_mod_cast hle

theorem queue_wait_exact (records : List Span) (start stop : ℤ) (hr : ∀ s ∈ records, s.startNs ≤ s.endNs)
    (hw : start ≤ stop) :
    ((resourceWaitNs records start stop : ℝ) =
        volume.real ((spanned waitStages records ∩ Set.Ico (start : ℝ) stop) \ spanned lockWaitStages records) ∧
      0 ≤ resourceWaitNs records start stop ∧ resourceWaitNs records start stop ≤ stop - start ∧
      ∀ other, (∀ s, s ∈ other ↔ s ∈ records) → resourceWaitNs other start stop = resourceWaitNs records start stop) ∧
    ∀ l : List (ℤ × ℤ), (∀ p ∈ l, p.1 ≤ p.2) → Separated (mergedIntervals l) ∧
      region (mergedIntervals l) = region l ∧ closedRegion (mergedIntervals l) = closedRegion l := by
  have heq := resourceWaitNs_eq hr hw
  refine ⟨⟨heq, (resourceWaitNs_bounds hr hw).1, (resourceWaitNs_bounds hr hw).2, fun other hother => ?_⟩,
    fun l hl => mergedIntervals_spec hl⟩
  have hcongr := resourceWaitNs_eq (fun s hs => hr s ((hother s).mp hs)) hw
  rw [spanned_congr hother, spanned_congr hother, ← heq] at hcongr
  exact Int.cast_injective hcongr

def nestedSpans : List Span :=
  [⟨"admission.condition_wait", 0, 100⟩, ⟨"admission.condition.reacquire", 70, 100⟩,
    ⟨"admission.lock.acquire", 75, 95⟩, ⟨"admission.condition_wait", 110, 200⟩, ⟨"admission.lock.acquire", 180, 190⟩]

theorem queue_wait_exact_nested :
    ((resourceWaitNs nestedSpans 50 150 : ℝ) = volume.real ((spanned waitStages nestedSpans ∩
        Set.Ico ((50 : ℤ) : ℝ) ((150 : ℤ) : ℝ)) \ spanned lockWaitStages nestedSpans) ∧
      resourceWaitNs nestedSpans 50 150 = 60) ∧ Separated (mergedIntervals [(3, 5), (1, 3), (7, 7)]) :=
  ⟨⟨(queue_wait_exact nestedSpans 50 150 (by decide) (by decide)).1.1, by decide +kernel⟩,
    ((queue_wait_exact nestedSpans 50 150 (by decide) (by decide)).2 _ (by decide)).1⟩

end ClawBox.Timing
