import ClawBox.Lib.PyText
import Mathlib.Data.Finset.Sort
import Mathlib.Order.Interval.Finset.Nat

namespace ClawBox.Placement

open Fields (Text splitBy splitBy_eq)
open PyText

inductive CpuListError where
  | invalidList (value : Text)
  | invalidLiteral (item : Text)
  | invalidRange (part : Text)
  | empty
  deriving DecidableEq

def bound (item : Text) : Except CpuListError ℕ :=
  match toInt item 0 with
  | some n => .ok n
  | none => .error (.invalidLiteral item)

def parsePart (value part : Text) : Except CpuListError (ℕ × ℕ) :=
  let bounds := splitBy (· == '-') (strip part)
  if (bounds.length ≠ 1 ∧ bounds.length ≠ 2) ∨ bounds.any (fun item => !isdigit item) then .error (.invalidList value)
  else
    match bound (bounds.head?.getD []), bound (bounds.getLast?.getD []) with
    | .error e, _ => .error e
    | .ok _, .error e => .error e
    | .ok first, .ok last => if first > last then .error (.invalidRange part) else .ok (first, last)

def addParts (value : Text) (cpus : Finset ℕ) : List Text → Except CpuListError (Finset ℕ)
  | [] => .ok cpus
  | part :: rest =>
    match parsePart value part with
    | .error e => .error e
    | .ok (first, last) => addParts value (cpus ∪ Finset.Icc first last) rest

def parseCpuList (value : Text) : Except CpuListError (Finset ℕ) :=
  match addParts value ∅ (splitBy (· == ',') value) with
  | .error e => .error e
  | .ok cpus => if cpus = ∅ then .error .empty else .ok cpus

def addCpu (ranges : List (ℕ × ℕ)) (cpu : ℕ) : List (ℕ × ℕ) :=
  match ranges.getLast? with
  | none => ranges ++ [(cpu, cpu)]
  | some (first, last) => if cpu ≠ last + 1 then ranges ++ [(cpu, cpu)] else ranges.dropLast ++ [(first, cpu)]

def cpuRanges (cpus : Finset ℕ) : List (ℕ × ℕ) := (cpus.sort (· ≤ ·)).foldl addCpu []

def rangeText (r : ℕ × ℕ) : Text := if r.1 = r.2 then digits r.1 else digits r.1 ++ '-' :: digits r.2

def formatCpuList (cpus : Finset ℕ) : Text := [','].intercalate ((cpuRanges cpus).map rangeText)

structure Covers (ranges : List (ℕ × ℕ)) (cpus : List ℕ) : Prop where
  ordered : ∀ r ∈ ranges, r.1 ≤ r.2
  apart : ranges.Pairwise fun a b => a.2 + 1 < b.1
  mem : ∀ n, n ∈ cpus ↔ ∃ r ∈ ranges, r.1 ≤ n ∧ n ≤ r.2

theorem addCpu_covers {ranges : List (ℕ × ℕ)} {cpus : List ℕ} (h : Covers ranges cpus) {cpu : ℕ}
    (hcpu : ∀ n ∈ cpus, n < cpu) :
    Covers (addCpu ranges cpu) (cpus ++ [cpu]) := by
  have hlast : ∀ r ∈ ranges, r.2 < cpu := by
    intro r hr
    exact hcpu r.2 ((h.mem r.2).2 ⟨r, hr, h.ordered r hr, le_refl _⟩)
  cases List.eq_nil_or_concat ranges with
  | inl hnil =>
    subst hnil
    have hcpus : cpus = [] := by
      apply List.eq_nil_iff_forall_not_mem.2
      intro n hn
      obtain ⟨r, hr, _⟩ := (h.mem n).1 hn
      cases hr
    rw [hcpus]
    refine ⟨by simp [addCpu], by simp [addCpu], ?_⟩
    intro n
    simp only [addCpu, List.getLast?_nil, List.nil_append, List.mem_singleton, exists_eq_left]
    omega
  | inr hconcat =>
    obtain ⟨rs, ⟨first, last⟩, rfl⟩ := hconcat
    rw [List.concat_eq_append] at *
    have hold := List.pairwise_append.1 h.apart
    have hle : first ≤ last := h.ordered (first, last) (by simp)
    have hlt : last < cpu := hlast (first, last) (by simp)
    simp only [addCpu, List.getLast?_append, List.getLast?_singleton, Option.some_or, List.dropLast_concat]
    by_cases hnext : cpu ≠ last + 1
    · rw [if_pos hnext]
      refine ⟨?_, ?_, ?_⟩
      · intro r hr
        cases List.mem_append.1 hr with
        | inl hmem => exact h.ordered r hmem
        | inr hmem => simp [List.mem_singleton.1 hmem]
      · rw [List.pairwise_append]
        refine ⟨h.apart, List.pairwise_singleton _ _, ?_⟩
        intro a ha b hb
        rw [List.mem_singleton.1 hb]
        cases List.mem_append.1 ha with
        | inl hmem =>
          have := hold.2.2 a hmem (first, last) (by simp)
          simp only at this ⊢
          omega
        | inr hmem =>
          rw [List.mem_singleton.1 hmem]
          simp only
          omega
      · intro n
        rw [List.mem_append, h.mem, List.mem_singleton]
        constructor
        · rintro (⟨r, hr, hn⟩ | rfl)
          · exact ⟨r, List.mem_append_left _ hr, hn⟩
          · exact ⟨(n, n), by simp⟩
        · rintro ⟨r, hr, hn⟩
          cases List.mem_append.1 hr with
          | inl hmem => exact .inl ⟨r, hmem, hn⟩
          | inr hmem =>
            rw [List.mem_singleton.1 hmem] at hn
            exact .inr (le_antisymm hn.2 hn.1)
    · rw [if_neg hnext]
      refine ⟨?_, ?_, ?_⟩
      · intro r hr
        cases List.mem_append.1 hr with
        | inl hmem => exact h.ordered r (List.mem_append_left _ hmem)
        | inr hmem =>
          rw [List.mem_singleton.1 hmem]
          simp only
          omega
      · rw [List.pairwise_append]
        refine ⟨hold.1, List.pairwise_singleton _ _, ?_⟩
        intro a ha b hb
        rw [List.mem_singleton.1 hb]
        exact hold.2.2 a ha (first, last) (by simp)
      · intro n
        rw [List.mem_append, h.mem, List.mem_singleton]
        constructor
        · rintro (⟨r, hr, hn⟩ | rfl)
          · cases List.mem_append.1 hr with
            | inl hmem => exact ⟨r, List.mem_append_left _ hmem, hn⟩
            | inr hmem =>
              rw [List.mem_singleton.1 hmem] at hn
              simp only at hn
              exact ⟨(first, cpu), by simp, by simp only; omega⟩
          · exact ⟨(first, n), by simp, by simp only; omega⟩
        · rintro ⟨r, hr, hn⟩
          cases List.mem_append.1 hr with
          | inl hmem => exact .inl ⟨r, List.mem_append_left _ hmem, hn⟩
          | inr hmem =>
            rw [List.mem_singleton.1 hmem] at hn
            simp only at hn
            by_cases hcase : n ≤ last
            · exact .inl ⟨(first, last), by simp, hn.1, hcase⟩
            · exact .inr (by omega)

theorem foldl_covers {ranges : List (ℕ × ℕ)} {done todo : List ℕ} (h : Covers ranges done)
    (hsorted : (done ++ todo).Pairwise (· < ·)) : Covers (todo.foldl addCpu ranges) (done ++ todo) := by
  induction todo generalizing ranges done with
  | nil => simpa using h
  | cons cpu todo ih =>
    have hcpu : ∀ n ∈ done, n < cpu := by
      intro n hn
      exact (List.pairwise_append.1 hsorted).2.2 n hn cpu List.mem_cons_self
    rw [List.foldl_cons, List.append_cons]
    apply ih (addCpu_covers h hcpu)
    rwa [← List.append_cons]

theorem cpuRanges_covers (cpus : Finset ℕ) : Covers (cpuRanges cpus) (cpus.sort (· ≤ ·)) := by
  have hstart : Covers [] [] := ⟨by simp, List.Pairwise.nil, by simp⟩
  have := foldl_covers hstart (Finset.sortedLT_sort cpus).pairwise
  exact this

theorem mem_cpuRanges (cpus : Finset ℕ) (n : ℕ) : n ∈ cpus ↔ ∃ r ∈ cpuRanges cpus, r.1 ≤ n ∧ n ≤ r.2 := by
  rw [← (cpuRanges_covers cpus).mem, Finset.mem_sort]

theorem cpuRanges_ne_nil {cpus : Finset ℕ} (h : cpus.Nonempty) : cpuRanges cpus ≠ [] := by
  obtain ⟨n, hn⟩ := h
  obtain ⟨r, hr, _⟩ := (mem_cpuRanges cpus n).1 hn
  exact List.ne_nil_of_mem hr

theorem not_mem_digits {c : Char} (hc : c.isDigit = false) (n : ℕ) : c ∉ digits n := by
  intro h
  rw [isDigit_of_mem_digits h] at hc
  cases hc

theorem mem_rangeText {r : ℕ × ℕ} {c : Char} (h : c ∈ rangeText r) : c.isDigit = true ∨ c = '-' := by
  rw [rangeText] at h
  split_ifs at h
  · exact .inl (isDigit_of_mem_digits h)
  · rcases List.mem_append.1 h with hd | hc
    · exact .inl (isDigit_of_mem_digits hd)
    · cases List.mem_cons.1 hc with
      | inl heq => exact .inr heq
      | inr hd => exact .inl (isDigit_of_mem_digits hd)

theorem isSpace_of_isDigit {c : Char} (h : c.isDigit = true) : isSpace c = false := by
  simp only [Char.isDigit, Bool.and_eq_true, decide_eq_true_eq, ge_iff_le, UInt32.le_iff_toNat_le] at h
  change 48 ≤ c.toNat ∧ c.toNat ≤ 57 at h
  simp only [PyText.isSpace, Fields.isSpace, Bool.or_eq_false_iff, Bool.and_eq_false_iff, decide_eq_false_iff_not]
  omega

theorem strip_rangeText (r : ℕ × ℕ) : strip (rangeText r) = rangeText r := by
  apply strip_eq_self
  intro c hc
  cases mem_rangeText hc with
  | inl hd => exact isSpace_of_isDigit hd
  | inr heq => rw [heq]; decide

theorem splitBy_rangeText (r : ℕ × ℕ) :
    splitBy (· == '-') (rangeText r) = if r.1 = r.2 then [digits r.1] else [digits r.1, digits r.2] := by
  have hdash : ∀ n, '-' ∉ digits n := fun n => not_mem_digits (by decide) n
  rw [rangeText]
  split_ifs
  · have hone : splitBy (· == '-') (['-'].intercalate [digits r.1]) = [digits r.1] :=
      splitBy_intercalate (by simp [hdash]) (by simp)
    simpa [List.intercalate] using hone
  · have htwo : splitBy (· == '-') (['-'].intercalate [digits r.1, digits r.2]) = [digits r.1, digits r.2] :=
      splitBy_intercalate (by simp [hdash]) (by simp)
    simpa [List.intercalate] using htwo

theorem bound_digits (n : ℕ) : bound (digits n) = .ok n := by rw [bound, toInt_digits]

theorem parsePart_rangeText (value : Text) {r : ℕ × ℕ} (h : r.1 ≤ r.2) : parsePart value (rangeText r) = .ok r := by
  unfold parsePart
  rw [strip_rangeText, splitBy_rangeText]
  by_cases heq : r.1 = r.2
  · simp only [heq, if_true, List.length_singleton, List.any_cons, List.any_nil, isdigit_digits, List.head?_cons,
      List.getLast?_singleton, Option.getD_some, bound_digits]
    obtain ⟨first, last⟩ := r
    simp only at heq
    simp [heq]
  · simp only [heq, if_false, List.length_cons, List.length_nil, List.any_cons, List.any_nil, isdigit_digits,
      List.head?_cons, List.getLast?_cons_cons, List.getLast?_singleton, Option.getD_some, bound_digits]
    have hle : ¬ r.1 > r.2 := by omega
    simp [hle]

theorem addParts_ranges (value : Text) {ranges : List (ℕ × ℕ)} (h : ∀ r ∈ ranges, r.1 ≤ r.2) (cpus : Finset ℕ) :
    ∃ cpus', addParts value cpus (ranges.map rangeText) = .ok cpus' ∧
      ∀ n, n ∈ cpus' ↔ n ∈ cpus ∨ ∃ r ∈ ranges, r.1 ≤ n ∧ n ≤ r.2 := by
  induction ranges generalizing cpus with
  | nil => exact ⟨cpus, rfl, by simp⟩
  | cons r ranges ih =>
    rw [List.map_cons, addParts, parsePart_rangeText value (h r List.mem_cons_self)]
    obtain ⟨cpus', hok, hmem⟩ := ih (fun r' hr => h r' (List.mem_cons_of_mem r hr)) (cpus ∪ Finset.Icc r.1 r.2)
    refine ⟨cpus', hok, ?_⟩
    intro n
    rw [hmem, Finset.mem_union, Finset.mem_Icc, List.exists_mem_cons_iff, or_assoc]

theorem parse_format {cpus : Finset ℕ} (h : cpus.Nonempty) : parseCpuList (formatCpuList cpus) = .ok cpus := by
  have hcomma : ∀ p ∈ (cpuRanges cpus).map rangeText, ',' ∉ p := by
    intro p hp hc
    obtain ⟨r, _, rfl⟩ := List.mem_map.1 hp
    cases mem_rangeText hc with
    | inl hd => simp at hd
    | inr heq => simp at heq
  have hne : (cpuRanges cpus).map rangeText ≠ [] := by simpa using cpuRanges_ne_nil h
  obtain ⟨cpus', hok, hmem⟩ := addParts_ranges (formatCpuList cpus) (cpuRanges_covers cpus).ordered ∅
  have heq : cpus' = cpus := by
    ext n
    rw [hmem, mem_cpuRanges cpus n]
    simp
  rw [parseCpuList]
  have hsplit : splitBy (· == ',') (formatCpuList cpus) = (cpuRanges cpus).map rangeText :=
    splitBy_intercalate hcomma hne
  rw [hsplit, hok, heq]
  simp [h.ne_empty]

theorem parse_nonempty {t : Text} {cpus : Finset ℕ} (h : parseCpuList t = .ok cpus) : cpus.Nonempty := by
  rw [parseCpuList] at h
  split at h
  · cases h
  · split_ifs at h with hempty
    obtain rfl := Except.ok.inj h
    exact Finset.nonempty_iff_ne_empty.2 hempty

theorem format_empty : formatCpuList ∅ = [] := by simp [formatCpuList, cpuRanges]

theorem format_injective : Function.Injective formatCpuList := by
  have hne : ∀ cpus : Finset ℕ, cpus.Nonempty → formatCpuList cpus ≠ formatCpuList ∅ := by
    intro cpus h heq
    have hparse := parse_format h
    rw [heq, format_empty] at hparse
    simp [parseCpuList, splitBy, addParts, parsePart, strip, isdigit] at hparse
  intro s t heq
  cases s.eq_empty_or_nonempty with
  | inl hs =>
    cases t.eq_empty_or_nonempty with
    | inl ht => rw [hs, ht]
    | inr ht => exact absurd (hs ▸ heq).symm (hne t ht)
  | inr hs =>
    cases t.eq_empty_or_nonempty with
    | inl ht => exact absurd (ht ▸ heq) (hne s hs)
    | inr ht =>
      have hparse := parse_format hs
      rw [heq, parse_format ht] at hparse
      exact (Except.ok.inj hparse).symm

theorem cpu_list_codec :
    (∀ cpus : Finset ℕ, cpus.Nonempty → parseCpuList (formatCpuList cpus) = .ok cpus) ∧
    (∀ cpus : Finset ℕ, (cpuRanges cpus).Pairwise (fun a b => a.2 + 1 < b.1) ∧ (∀ r ∈ cpuRanges cpus, r.1 ≤ r.2) ∧
      ∀ n, n ∈ cpus ↔ ∃ r ∈ cpuRanges cpus, r.1 ≤ n ∧ n ≤ r.2) ∧
    (∀ t cpus, parseCpuList t = .ok cpus → cpus.Nonempty ∧ parseCpuList (formatCpuList cpus) = .ok cpus) ∧
    (∀ s t : Finset ℕ, formatCpuList s = formatCpuList t ↔ s = t) := by
  refine ⟨fun cpus h => parse_format h, ?_, ?_, fun s t => format_injective.eq_iff⟩
  · intro cpus
    have h := cpuRanges_covers cpus
    exact ⟨h.apart, h.ordered, mem_cpuRanges cpus⟩
  · intro t cpus h
    have hne := parse_nonempty h
    exact ⟨hne, parse_format hne⟩

end ClawBox.Placement
