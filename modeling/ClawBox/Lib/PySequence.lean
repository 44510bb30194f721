import Mathlib.Algebra.Order.Ring.Int
import Mathlib.Data.List.Basic
import Mathlib.Tactic.Common
import Mathlib.Tactic.Linarith

namespace PySequence

variable {α : Type*}

def item (l : List α) (i : ℤ) : Option α :=
  let i := if i < 0 then i + l.length else i
  if 0 ≤ i ∧ i < l.length then l[i.toNat]? else none

theorem item_of_nonneg (l : List α) {i : ℤ} (h : 0 ≤ i) : item l i = l[i.toNat]? := by
  simp only [item, if_neg (not_lt.2 h)]
  split_ifs with hi
  · rfl
  · rw [List.getElem?_eq_none]
    omega

/-- The arguments of a slice; `none` stands for one that is left out. -/
structure Slice where
  start : Option ℤ
  stop : Option ℤ
  step : ℤ
  step_ne : step ≠ 0

namespace Slice

def clip (n lower upper : ℤ) (i : ℤ) : ℤ := if i < 0 then max (i + n) lower else min i upper

def indices (s : Slice) (n : ℕ) : ℤ × ℤ :=
  if 0 < s.step then ((s.start.map (clip n 0 n)).getD 0, (s.stop.map (clip n 0 n)).getD n)
  else ((s.start.map (clip n (-1) (n - 1))).getD (n - 1), (s.stop.map (clip n (-1) (n - 1))).getD (-1))

end Slice

def rangeLength (start stop step : ℤ) : ℕ :=
  if 0 < step then ((stop - start + step - 1) / step).toNat else ((start - stop - step - 1) / (-step)).toNat

def range (start stop step : ℤ) : List ℤ :=
  (List.range (rangeLength start stop step)).map fun k => start + step * (k : ℕ)

def slice (l : List α) (s : Slice) : List α :=
  (range (s.indices l.length).1 (s.indices l.length).2 s.step).filterMap (item l)

theorem mem_range_pos {start stop step i : ℤ} (hs : 0 < step) (h : i ∈ range start stop step) :
    start ≤ i ∧ i < stop := by
  obtain ⟨k, hk, rfl⟩ := List.mem_map.1 h
  rw [List.mem_range, rangeLength, if_pos hs] at hk
  have hle : (k : ℤ) + 1 ≤ (stop - start + step - 1) / step := by omega
  have hmul : ((k : ℤ) + 1) * step ≤ stop - start + step - 1 := (Int.le_ediv_iff_mul_le hs).1 hle
  have hk0 : 0 ≤ step * (k : ℤ) := by positivity
  constructor
  · omega
  · nlinarith

theorem mem_range_neg {start stop step i : ℤ} (hs : step < 0) (h : i ∈ range start stop step) :
    stop < i ∧ i ≤ start := by
  obtain ⟨k, hk, rfl⟩ := List.mem_map.1 h
  rw [List.mem_range, rangeLength, if_neg (not_lt.2 hs.le)] at hk
  have hle : (k : ℤ) + 1 ≤ (start - stop - step - 1) / (-step) := by omega
  have hmul : ((k : ℤ) + 1) * (-step) ≤ start - stop - step - 1 := (Int.le_ediv_iff_mul_le (by omega)).1 hle
  have hk0 : 0 ≤ (-step) * (k : ℤ) := by
    have : 0 ≤ -step := by omega
    positivity
  constructor
  · nlinarith
  · nlinarith

theorem mem_indices {s : Slice} {n : ℕ} {i : ℤ} (h : i ∈ range (s.indices n).1 (s.indices n).2 s.step) :
    0 ≤ i ∧ i < n := by
  rcases lt_or_gt_of_ne s.step_ne with hneg | hpos
  · obtain ⟨hlow, hhigh⟩ := mem_range_neg hneg h
    rw [Slice.indices, if_neg (not_lt.2 hneg.le)] at hlow hhigh
    have hstart : ((s.start.map (Slice.clip n (-1) (n - 1))).getD (n - 1) : ℤ) ≤ n - 1 := by
      cases s.start with
      | none => exact le_rfl
      | some a =>
        simp only [Option.map_some, Option.getD_some, Slice.clip]
        split_ifs <;> omega
    have hstop : (-1 : ℤ) ≤ (s.stop.map (Slice.clip n (-1) (n - 1))).getD (-1) := by
      cases s.stop with
      | none => exact le_rfl
      | some a =>
        simp only [Option.map_some, Option.getD_some, Slice.clip]
        split_ifs <;> omega
    constructor
    · omega
    · omega
  · obtain ⟨hlow, hhigh⟩ := mem_range_pos hpos h
    rw [Slice.indices, if_pos hpos] at hlow hhigh
    have hstart : (0 : ℤ) ≤ (s.start.map (Slice.clip n 0 n)).getD 0 := by
      cases s.start with
      | none => exact le_rfl
      | some a =>
        simp only [Option.map_some, Option.getD_some, Slice.clip]
        split_ifs <;> omega
    have hstop : ((s.stop.map (Slice.clip n 0 n)).getD n : ℤ) ≤ n := by
      cases s.stop with
      | none => exact le_rfl
      | some a =>
        simp only [Option.map_some, Option.getD_some, Slice.clip]
        split_ifs <;> omega
    constructor
    · omega
    · omega

theorem mapM_item (l : List α) (s : Slice) {f : ℤ → Option α} (hf : ∀ i, f i = item l i) :
    (range (s.indices l.length).1 (s.indices l.length).2 s.step).mapM f = some (slice l s) := by
  have hall : ∀ is : List ℤ, (∀ i ∈ is, 0 ≤ i ∧ i < l.length) → is.mapM f = some (is.filterMap (item l)) := by
    intro is his
    induction is with
    | nil => rfl
    | cons i is ih =>
      obtain ⟨h₀, h₁⟩ := his i List.mem_cons_self
      have hlt : i.toNat < l.length := by omega
      have hitem : item l i = some l[i.toNat] := by
        rw [item_of_nonneg l h₀, List.getElem?_eq_getElem hlt]
      rw [List.mapM_cons, hf, hitem, ih fun j hj => his j (List.mem_cons_of_mem i hj)]
      simp [hitem]
  exact hall _ fun i hi => mem_indices hi

theorem getElem?_flatten {n : ℕ} (hn : 0 < n) {bs : List (List α)} (h : ∀ b ∈ bs, b.length = n) (i : ℕ) :
    bs.flatten[i]? = bs[i / n]?.bind (·[i % n]?) := by
  induction bs generalizing i with
  | nil => simp
  | cons b bs ih =>
    have hb := h b List.mem_cons_self
    have hbs := ih fun b hb => h b (List.mem_cons_of_mem _ hb)
    rw [List.flatten_cons]
    by_cases hi : i < n
    · rw [List.getElem?_append_left (by omega), Nat.div_eq_of_lt hi, Nat.mod_eq_of_lt hi]
      rfl
    · obtain ⟨j, rfl⟩ := Nat.exists_eq_add_of_le (not_lt.1 hi)
      rw [List.getElem?_append_right (by omega), hb, Nat.add_sub_cancel_left, hbs, Nat.add_div_left _ hn,
        Nat.add_mod_left]
      rfl

theorem length_flatten {n : ℕ} {bs : List (List α)} (h : ∀ b ∈ bs, b.length = n) :
    bs.flatten.length = bs.length * n := by
  induction bs with
  | nil => simp
  | cons b bs ih =>
    rw [List.flatten_cons, List.length_append, h b List.mem_cons_self, ih fun b hb => h b (List.mem_cons_of_mem _ hb),
      List.length_cons, Nat.succ_mul, Nat.add_comm]

end PySequence
