import Mathlib.Algebra.BigOperators.Group.Finset.Piecewise
import Mathlib.Algebra.Order.BigOperators.Group.Finset
import Mathlib.Algebra.Order.Group.Int
import Mathlib.Tactic.Ring
import Mathlib.Tactic.Common

namespace Meters

variable {K O : Type*}

structure Meter (K : Type*) where
  last : K → Option ℤ
  gains : List ℤ

def Meter.total (m : Meter K) : ℤ := m.gains.sum

-- A key not read before and a counter that went back add nothing.
def gain (prev : Option ℤ) (value : ℤ) : List ℤ :=
  match prev with
  | some p => if p ≤ value then [value - p] else []
  | none => []

def Meter.empty : Meter K := ⟨fun _ => none, []⟩

/-- A reading: whose counter is read, and what each owner has used by then. -/
structure Visit (O : Type*) where
  owner : O
  used : O → ℤ

def Visit.value (v : Visit O) : ℤ := v.used v.owner

def Follows (key : O → K) (a b : Visit O) : Prop :=
  (∀ o, a.used o ≤ b.used o) ∧ (key a.owner = key b.owner → a.owner ≠ b.owner → a.used b.owner = 0)

/-- A history of readings that the world can give: the readings follow one another and nothing has been used before
its start. -/
structure Fits (key : O → K) (start : O → ℤ) (visits : List (Visit O)) : Prop where
  pos : ∀ o, 0 ≤ start o
  after : ∀ v ∈ visits, ∀ o, start o ≤ v.used o
  ordered : visits.Pairwise (Follows key)

theorem Fits.init {key : O → K} {start : O → ℤ} {past : List (Visit O)} {b : Visit O}
    (h : Fits key start (past ++ [b])) :
    Fits key start past :=
  ⟨h.pos, fun v hv => h.after v (by simp [hv]), (List.pairwise_append.1 h.ordered).1⟩

theorem Fits.follows {key : O → K} {start : O → ℤ} {past : List (Visit O)} {b : Visit O}
    (h : Fits key start (past ++ [b])) : ∀ a ∈ past, Follows key a b :=
  fun a ha => (List.pairwise_append.1 h.ordered).2.2 a ha b (by simp)

theorem Fits.nonneg {key : O → K} {start : O → ℤ} {past : List (Visit O)} {b : Visit O}
    (h : Fits key start (past ++ [b])) : ∀ a ∈ past, ∀ o, 0 ≤ a.used o :=
  fun a ha o => le_trans (h.pos o) (h.after a (by simp [ha]) o)

variable [DecidableEq K]

def Meter.rebase (m : Meter K) (k : K) (value : ℤ) : Meter K :=
  ⟨Function.update m.last k (some value), m.gains⟩

def Meter.advance (m : Meter K) (k : K) (value : ℤ) : Meter K :=
  ⟨Function.update m.last k (some value), m.gains ++ gain (m.last k) value⟩

def Meter.rebaseAll (key : O → K) (m : Meter K) (visits : List (Visit O)) : Meter K :=
  visits.foldl (fun m v => m.rebase (key v.owner) v.value) m

def Meter.advanceAll (key : O → K) (m : Meter K) (visits : List (Visit O)) : Meter K :=
  visits.foldl (fun m v => m.advance (key v.owner) v.value) m

theorem Meter.gains_rebaseAll (key : O → K) (visits : List (Visit O)) (m : Meter K) :
    (m.rebaseAll key visits).gains = m.gains := by
  induction visits generalizing m with
  | nil => simp [Meter.rebaseAll]
  | cons v visits ih => exact ih (m.rebase (key v.owner) v.value)

@[simp] theorem Meter.total_advance (m : Meter K) (k : K) (value : ℤ) :
    (m.advance k value).total = m.total + (gain (m.last k) value).sum := by
  simp [Meter.total, Meter.advance]

structure Meter.Within (bound : ℤ) (m : Meter K) : Prop where
  last : ∀ k p, m.last k = some p → 0 ≤ p
  gains : ∀ d ∈ m.gains, 0 ≤ d ∧ d ≤ bound

theorem Meter.Within.rebase {bound : ℤ} {m : Meter K} (h : m.Within bound) (k : K) {value : ℤ} (hv : 0 ≤ value) :
    (m.rebase k value).Within bound := by
  refine ⟨?_, h.gains⟩
  intro k' p hp
  simp only [Meter.rebase, Function.update_apply] at hp
  split_ifs at hp
  · cases hp
    exact hv
  · exact h.last k' p hp

theorem Meter.Within.advance {bound : ℤ} {m : Meter K} (h : m.Within bound) (k : K) {value : ℤ}
    (hv : 0 ≤ value ∧ value ≤ bound) : (m.advance k value).Within bound := by
  refine ⟨(h.rebase k hv.1).last, ?_⟩
  intro d hd
  cases List.mem_append.1 hd with
  | inl hd => exact h.gains d hd
  | inr hd =>
    cases hk : m.last k with
    | none => simp [gain, hk] at hd
    | some p =>
      have hp := h.last k p hk
      simp only [gain, hk] at hd
      split_ifs at hd with hle
      · rw [List.mem_singleton] at hd
        omega
      · cases hd

theorem gain_nonneg {prev : Option ℤ} {value d : ℤ} (hd : d ∈ gain prev value) : 0 ≤ d := by
  unfold gain at hd
  split at hd
  · split_ifs at hd
    · rw [List.mem_singleton] at hd
      omega
    · cases hd
  · cases hd

variable [DecidableEq O]

/-- The latest reading of each owner, or what it had used at the start. -/
def known (start : O → ℤ) (visits : List (Visit O)) : O → ℤ :=
  visits.foldl (fun f v => Function.update f v.owner v.value) start

theorem known_snoc (start : O → ℤ) (past : List (Visit O)) (v : Visit O) :
    known start (past ++ [v]) = Function.update (known start past) v.owner v.value := by
  simp [known]

theorem known_le {start u : O → ℤ} {past : List (Visit O)} (hstart : ∀ o, start o ≤ u o)
    (hpast : ∀ a ∈ past, ∀ o, a.used o ≤ u o) (o : O) : known start past o ≤ u o := by
  induction past using List.reverseRecOn with
  | nil => exact hstart o
  | append_singleton past v ih =>
    rw [known_snoc, Function.update_apply]
    split_ifs with ho
    · rw [ho]
      exact hpast v (by simp) v.owner
    · exact ih (fun a ha => hpast a (by simp [ha]))

def Meter.Remembers (key : O → K) (start : O → ℤ) (past : List (Visit O)) (m : Meter K) : Prop :=
  ∀ k p, m.last k = some p →
    ∃ a ∈ past, key a.owner = k ∧ p = a.value ∧ ∀ o, key o = k → known start past o ≤ a.used o

theorem Meter.Remembers.snoc {key : O → K} {start : O → ℤ} {past : List (Visit O)} {m : Meter K} {b : Visit O}
    (h : m.Remembers key start past) (hstart : ∀ o, start o ≤ b.used o) (hb : ∀ a ∈ past, Follows key a b)
    {m' : Meter K} (hm : m'.last = Function.update m.last (key b.owner) (some b.value)) :
    m'.Remembers key start (past ++ [b]) := by
  intro k p hp
  rw [hm, Function.update_apply] at hp
  split_ifs at hp with hk
  · refine ⟨b, by simp, hk.symm, (Option.some.inj hp).symm, ?_⟩
    intro o _
    apply known_le hstart
    intro a ha
    rw [List.mem_append, List.mem_singleton] at ha
    cases ha with
    | inl ha => exact (hb a ha).1
    | inr ha =>
      rw [ha]
      exact fun o => le_refl _
  · obtain ⟨a, ha, hka, hpa, hle⟩ := h k p hp
    refine ⟨a, by simp [ha], hka, hpa, ?_⟩
    intro o ho
    have hne : o ≠ b.owner := by
      rintro rfl
      exact hk ho.symm
    rw [known_snoc, Function.update_of_ne hne]
    exact hle o ho

omit [DecidableEq K] in
theorem Meter.Remembers.known_le_prev {key : O → K} {start : O → ℤ} {past : List (Visit O)} {m : Meter K} {b : Visit O}
    (h : m.Remembers key start past) (hb : ∀ a ∈ past, Follows key a b) (hpos : ∀ a ∈ past, ∀ o, 0 ≤ a.used o)
    {p : ℤ} (hp : m.last (key b.owner) = some p) : known start past b.owner ≤ p := by
  obtain ⟨a, ha, hka, hpa, hle⟩ := h _ _ hp
  have hown := hle b.owner rfl
  by_cases hne : a.owner = b.owner
  · rw [hpa, Visit.value, hne]
    exact hown
  · have hzero := (hb a ha).2 hka hne
    have hpos' := hpos a ha a.owner
    rw [hpa, Visit.value]
    omega

omit [DecidableEq K] in
theorem gain_le {key : O → K} {start : O → ℤ} {past : List (Visit O)} {m : Meter K} {b : Visit O}
    (h : m.Remembers key start past) (hstart : ∀ o, start o ≤ b.used o) (hb : ∀ a ∈ past, Follows key a b)
    (hpos : ∀ a ∈ past, ∀ o, 0 ≤ a.used o) :
    (gain (m.last (key b.owner)) b.value).sum ≤ b.value - known start past b.owner := by
  have hknown : known start past b.owner ≤ b.value := known_le hstart (fun a ha => (hb a ha).1) b.owner
  cases hp : m.last (key b.owner) with
  | none =>
    simp only [gain, List.sum_nil]
    omega
  | some p =>
    have hprev := h.known_le_prev hb hpos hp
    simp only [gain]
    split_ifs
    · rw [List.sum_singleton]
      omega
    · rw [List.sum_nil]
      omega

theorem sum_known_snoc (start floor : O → ℤ) (past : List (Visit O)) (b : Visit O) {S : Finset O} (hS : b.owner ∈ S) :
    ∑ o ∈ S, (known start (past ++ [b]) o - floor o) =
      ∑ o ∈ S, (known start past o - floor o) + (b.value - known start past b.owner) := by
  rw [known_snoc, Finset.sum_sub_distrib, Finset.sum_sub_distrib, Finset.sum_update_of_mem hS,
    ← Finset.add_sum_erase S (known start past) hS, Finset.sdiff_singleton_eq_erase]
  ring

theorem remembers_rebaseAll {key : O → K} {start : O → ℤ} {first : List (Visit O)} (h : Fits key start first) :
    (Meter.empty.rebaseAll key first).Remembers key start first := by
  induction first using List.reverseRecOn with
  | nil =>
    intro k p hp
    simp [Meter.rebaseAll, Meter.empty] at hp
  | append_singleton first b ih =>
    apply (ih h.init).snoc (h.after b (by simp)) h.follows
    simp [Meter.rebaseAll, Meter.rebase]

theorem advanceAll_spec {key : O → K} {start : O → ℤ} {first later : List (Visit O)}
    (h : Fits key start (first ++ later)) {S : Finset O} (hS : ∀ v ∈ later, v.owner ∈ S) :
    ((Meter.empty.rebaseAll key first).advanceAll key later).Remembers key start (first ++ later) ∧
      ((Meter.empty.rebaseAll key first).advanceAll key later).total ≤
        ∑ o ∈ S, (known start (first ++ later) o - known start first o) := by
  induction later using List.reverseRecOn with
  | nil =>
    rw [List.append_nil] at h ⊢
    refine ⟨remembers_rebaseAll h, ?_⟩
    simp [Meter.advanceAll, Meter.total, Meter.gains_rebaseAll, Meter.empty]
  | append_singleton later b ih =>
    rw [← List.append_assoc] at h ⊢
    obtain ⟨hrem, htotal⟩ := ih h.init (fun v hv => hS v (by simp [hv]))
    have hstart := h.after b (by simp)
    have hgain := gain_le hrem hstart h.follows h.nonneg
    have hrun : (Meter.empty.rebaseAll key first).advanceAll key (later ++ [b]) =
        ((Meter.empty.rebaseAll key first).advanceAll key later).advance (key b.owner) b.value := by
      simp [Meter.advanceAll]
    constructor
    · apply hrem.snoc hstart h.follows
      rw [hrun]
      simp [Meter.advance]
    · rw [hrun, sum_known_snoc start _ _ b (hS b (by simp))]
      rw [Meter.total_advance]
      omega

theorem total_le_used {key : O → K} {start : O → ℤ} (finish : O → ℤ) {first later : List (Visit O)}
    (h : Fits key start (first ++ later)) (hstart : ∀ o, start o ≤ finish o)
    (hfinish : ∀ v ∈ first ++ later, ∀ o, v.used o ≤ finish o) {S : Finset O} (hS : ∀ v ∈ later, v.owner ∈ S) :
    ((Meter.empty.rebaseAll key first).advanceAll key later).total ≤
      ∑ o ∈ S, (finish o - known start first o) := by
  refine le_trans (advanceAll_spec h hS).2 ?_
  apply Finset.sum_le_sum
  intro o _
  have := known_le hstart hfinish o
  omega

end Meters
