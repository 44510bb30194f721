import Mathlib

namespace Intervals

open MeasureTheory

variable {l m : List (ℤ × ℤ)} {p q : ℤ × ℤ}

def region (l : List (ℤ × ℤ)) : Set ℝ := {x | ∃ p ∈ l, (p.1 : ℝ) ≤ x ∧ x < p.2}

def closedRegion (l : List (ℤ × ℤ)) : Set ℝ := {x | ∃ p ∈ l, (p.1 : ℝ) ≤ x ∧ x ≤ p.2}

noncomputable def cells : List (ℤ × ℤ) → Finset ℤ
  | [] => ∅
  | p :: l => Finset.Ico p.1 p.2 ∪ cells l

structure Separated (l : List (ℤ × ℤ)) : Prop where
  proper : ∀ p ∈ l, p.1 ≤ p.2
  apart : l.Pairwise fun p q => p.2 < q.1

theorem mem_cells {x : ℤ} : x ∈ cells l ↔ ∃ p ∈ l, p.1 ≤ x ∧ x < p.2 := by
  induction l with
  | nil => simp [cells]
  | cons p l ih => simp [cells, ih]

theorem mem_region {x : ℝ} : x ∈ region l ↔ ⌊x⌋ ∈ cells l := by
  simp only [region, Set.mem_ofPred_eq, mem_cells, Int.le_floor, Int.floor_lt]

theorem region_append (l m : List (ℤ × ℤ)) : region (l ++ m) = region l ∪ region m := by
  ext x
  simp only [region, Set.mem_ofPred_eq, Set.mem_union, List.mem_append, or_and_right, exists_or]

theorem closedRegion_append (l m : List (ℤ × ℤ)) : closedRegion (l ++ m) = closedRegion l ∪ closedRegion m := by
  ext x
  simp only [closedRegion, Set.mem_ofPred_eq, Set.mem_union, List.mem_append, or_and_right, exists_or]

theorem region_singleton (p : ℤ × ℤ) : region [p] = Set.Ico (p.1 : ℝ) p.2 := by
  ext x
  simp [region]

theorem closedRegion_singleton (p : ℤ × ℤ) : closedRegion [p] = Set.Icc (p.1 : ℝ) p.2 := by
  ext x
  simp [closedRegion]

theorem region_congr (h : ∀ p, p ∈ l ↔ p ∈ m) : region l = region m := by
  ext x
  simp only [region, Set.mem_ofPred_eq, h]

theorem closedRegion_congr (h : ∀ p, p ∈ l ↔ p ∈ m) : closedRegion l = closedRegion m := by
  ext x
  simp only [closedRegion, Set.mem_ofPred_eq, h]

theorem Separated.nil : Separated [] := ⟨by simp, List.Pairwise.nil⟩

theorem Separated.tail (h : Separated (p :: l)) : Separated l :=
  ⟨fun q hq => h.proper q (List.mem_cons_of_mem _ hq), h.apart.of_cons⟩

theorem Separated.lt_of_mem_cells (h : Separated (p :: l)) {x : ℤ} (hx : x ∈ cells l) : p.2 < x := by
  obtain ⟨q, hq, hle, -⟩ := mem_cells.mp hx
  have hlt := List.rel_of_pairwise_cons h.apart hq
  omega

theorem Separated.card_cells (h : Separated l) : ((cells l).card : ℤ) = (l.map fun p => p.2 - p.1).sum := by
  induction l with
  | nil => rfl
  | cons p l ih =>
    have hdisj : Disjoint (Finset.Ico p.1 p.2) (cells l) := by
      refine Finset.disjoint_left.mpr fun x hx hxl => ?_
      have hlt := h.lt_of_mem_cells hxl
      have hp := (Finset.mem_Ico.mp hx).2
      omega
    have hproper := h.proper p List.mem_cons_self
    rw [cells, Finset.card_union_of_disjoint hdisj, Nat.cast_add, ih h.tail, Int.card_Ico, List.map_cons, List.sum_cons]
    omega

theorem card_Ico_inter (p q : ℤ × ℤ) :
    ((Finset.Ico p.1 p.2 ∩ Finset.Ico q.1 q.2).card : ℤ) = max 0 (min p.2 q.2 - max p.1 q.1) := by
  rw [Finset.Ico_inter_Ico, Int.card_Ico, Int.toNat_eq_max, max_comm]

theorem Separated.card_inter_cons (hp : Separated (p :: l)) (hq : Separated (q :: m)) (hle : p.2 ≤ q.2) :
    ((cells (p :: l) ∩ cells (q :: m)).card : ℤ) =
      max 0 (min p.2 q.2 - max p.1 q.1) + (cells l ∩ cells (q :: m)).card := by
  have hsplit : cells (p :: l) ∩ cells (q :: m) =
      (Finset.Ico p.1 p.2 ∩ Finset.Ico q.1 q.2) ∪ (cells l ∩ cells (q :: m)) := by
    ext x
    simp only [cells, Finset.mem_inter, Finset.mem_union, Finset.mem_Ico]
    constructor
    · rintro ⟨hx | hx, hy⟩
      · rcases hy with hy | hy
        · exact .inl ⟨hx, hy⟩
        · have hlt := hq.lt_of_mem_cells hy
          omega
      · exact .inr ⟨hx, hy⟩
    · rintro (⟨hx, hy⟩ | ⟨hx, hy⟩)
      · exact ⟨.inl hx, .inl hy⟩
      · exact ⟨.inr hx, hy⟩
  have hdisj : Disjoint (Finset.Ico p.1 p.2 ∩ Finset.Ico q.1 q.2) (cells l ∩ cells (q :: m)) := by
    refine Finset.disjoint_left.mpr fun x hx hxl => ?_
    have hlt := hp.lt_of_mem_cells (Finset.mem_inter.mp hxl).1
    have hxp := (Finset.mem_Ico.mp (Finset.mem_inter.mp hx).1).2
    omega
  rw [hsplit, Finset.card_union_of_disjoint hdisj, Nat.cast_add, card_Ico_inter]

theorem volume_floor (S : Finset ℤ) : volume.real {x : ℝ | ⌊x⌋ ∈ S} = S.card := by
  have hsplit : {x : ℝ | ⌊x⌋ ∈ S} = ⋃ n ∈ S, Set.Ico (n : ℝ) (n + 1) := by
    ext x
    simp only [Set.mem_ofPred_eq, Set.mem_iUnion, Set.mem_Ico, exists_prop]
    constructor
    · exact fun hx => ⟨⌊x⌋, hx, Int.floor_le x, Int.lt_floor_add_one x⟩
    · rintro ⟨n, hn, hx⟩
      rwa [Int.floor_eq_iff.mpr hx]
  have hdisj : (S : Set ℤ).PairwiseDisjoint fun n : ℤ => Set.Ico (n : ℝ) (n + 1) := by
    intro n _ k _ hne
    refine Set.disjoint_left.mpr fun x hn hk => hne ?_
    rw [← Int.floor_eq_iff.mpr hn, ← Int.floor_eq_iff.mpr hk]
  rw [hsplit, measureReal_biUnion_finset hdisj (fun n _ => measurableSet_Ico) (fun n _ => by simp [Real.volume_Ico])]
  simp

end Intervals
