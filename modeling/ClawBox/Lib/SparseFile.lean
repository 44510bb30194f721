import Mathlib.Data.List.Basic
import Mathlib.Data.Nat.Notation
import Mathlib.Order.MinMax
import Mathlib.Tactic.Ring

namespace SparseFile

abbrev Bytes := List UInt8

structure Image where
  size : ℕ
  byte : ℕ → UInt8

namespace Image

def empty : Image := ⟨0, fun _ => 0⟩

def slice (f : Image) (offset count : ℕ) : Bytes := (List.range count).map fun k => f.byte (offset + k)

def truncate (f : Image) (n : ℕ) : Image := ⟨n, fun i => if i < n ∧ i < f.size then f.byte i else 0⟩

def write (f : Image) (offset : ℕ) (data : Bytes) : Image :=
  if data.isEmpty then f
  else ⟨max f.size (offset + data.length), fun i =>
    if offset ≤ i ∧ i < offset + data.length then data.getD (i - offset) 0 else if i < f.size then f.byte i else 0⟩

def Same (f g : Image) : Prop := f.size = g.size ∧ ∀ i < f.size, f.byte i = g.byte i

variable {f g : Image} {offset count : ℕ} {data : Bytes}

@[simp] theorem length_slice : (f.slice offset count).length = count := by simp [slice]

theorem getD_slice {k : ℕ} (hk : k < count) : (f.slice offset count).getD k 0 = f.byte (offset + k) := by
  simp [slice, List.getD_eq_getElem?_getD, hk]

theorem slice_congr (h : ∀ k < count, f.byte (offset + k) = g.byte (offset + k)) :
    f.slice offset count = g.slice offset count := by
  refine List.map_congr_left ?_
  intro k hk
  exact h k (List.mem_range.mp hk)

theorem slice_append (f : Image) (offset m n : ℕ) :
    f.slice offset m ++ f.slice (offset + m) n = f.slice offset (m + n) := by
  simp [slice, List.range_add, Nat.add_assoc, Function.comp_def]

theorem slice_eq_iff {g : Image} :
    f.slice offset count = g.slice offset count ↔ ∀ k < count, f.byte (offset + k) = g.byte (offset + k) := by
  simp [slice, List.map_inj_left]

theorem take_drop_slice {a b : ℕ} (h : a + b ≤ count) :
    ((f.slice offset count).drop a).take b = f.slice (offset + a) b := by
  apply List.ext_getElem
  · simp
    omega
  · intro k h₁ h₂
    simp [slice, Nat.add_assoc]

@[simp] theorem write_nil : f.write offset [] = f := rfl

theorem size_write (h : data ≠ []) : (f.write offset data).size = max f.size (offset + data.length) := by
  simp [write, h]

theorem byte_write {i : ℕ} (h : i < f.size ∨ offset ≤ i ∧ i < offset + data.length) :
    (f.write offset data).byte i =
      if offset ≤ i ∧ i < offset + data.length then data.getD (i - offset) 0 else f.byte i := by
  unfold write
  split
  · rename_i hd
    have hd : data = [] := List.isEmpty_iff.mp hd
    simp [hd]
  · dsimp only
    split
    · rfl
    · rw [if_pos]
      omega

theorem slice_write_self : (f.write offset data).slice offset data.length = data := by
  apply List.ext_getElem
  · simp
  · intro k h₁ h₂
    have hk : k < data.length := h₂
    have hbyte : ((f.write offset data).slice offset data.length).getD k 0 = (f.write offset data).byte (offset + k) :=
      getD_slice hk
    rw [byte_write (.inr (by omega)), if_pos (by omega)] at hbyte
    simpa [List.getD_eq_getElem?_getD, h₁, hk] using hbyte

theorem slice_write_disjoint {start n : ℕ} (hsize : start + n ≤ f.size)
    (hd : start + n ≤ offset ∨ offset + data.length ≤ start) :
    (f.write offset data).slice start n = f.slice start n := by
  apply slice_congr
  intro k hk
  rw [byte_write (.inl (by omega)), if_neg (by omega)]

theorem write_append (f : Image) (offset : ℕ) (xs ys : Bytes) :
    (f.write offset xs).write (offset + xs.length) ys = f.write offset (xs ++ ys) := by
  rcases eq_or_ne xs [] with rfl | hx
  · simp
  rcases eq_or_ne ys [] with rfl | hy
  · simp
  have hxy : xs ++ ys ≠ [] := by simp [hx]
  simp only [write, List.isEmpty_iff, hx, hy, hxy, if_false, List.length_append, Image.mk.injEq]
  constructor
  · omega
  · funext i
    by_cases h₁ : offset + xs.length ≤ i ∧ i < offset + xs.length + ys.length
    · rw [if_pos h₁, if_pos (by omega)]
      simp only [List.getD_eq_getElem?_getD]
      rw [List.getElem?_append_right (by omega)]
      congr 2
      omega
    · rw [if_neg h₁]
      by_cases h₂ : offset ≤ i ∧ i < offset + xs.length
      · rw [if_pos (by omega), if_pos h₂, if_pos (by omega)]
        simp only [List.getD_eq_getElem?_getD]
        rw [List.getElem?_append_left (by omega)]
      · by_cases h₃ : offset ≤ i ∧ i < offset + (xs.length + ys.length)
        · omega
        · rw [if_neg h₂, if_neg h₃]
          by_cases h₄ : i < f.size
          · rw [if_pos (by omega), if_pos h₄]
          · rw [if_neg h₄]
            split <;> rfl

end Image

/-- A regular file with holes; its size is an `off_t`. -/
structure Sparse extends Image where
  data : ℕ → Bool
  hole_zero : ∀ i < size, data i = false → byte i = 0
  size_lt : size < 2 ^ 63

namespace Sparse

def seekData (f : Sparse) (p : ℕ) : Option ℕ := (List.range' p (f.size - p)).find? f.data

/-- `lseek` with `SEEK_HOLE`: there is a hole at the end of every file. -/
def seekHole (f : Sparse) (p : ℕ) : Option ℕ :=
  if p < f.size then some (((List.range' p (f.size - p)).find? fun i => !f.data i).getD f.size) else none

variable {f : Sparse} {p d : ℕ}

theorem seekData_eq_some (h : f.seekData p = some d) :
    p ≤ d ∧ d < f.size ∧ f.data d = true ∧ ∀ i, p ≤ i → i < d → f.data i = false := by
  unfold seekData at h
  obtain ⟨hd, hmem, hbefore⟩ := List.find?_range'_eq_some.mp h
  rw [List.mem_range'_1] at hmem
  refine ⟨hmem.1, by omega, hd, ?_⟩
  intro i hp hi
  simpa using hbefore i hp hi

theorem seekData_eq_none (h : f.seekData p = none) {i : ℕ} (hp : p ≤ i) (hi : i < f.size) : f.data i = false := by
  unfold seekData at h
  rw [List.find?_eq_none] at h
  simpa using h i (List.mem_range'_1.mpr (by omega))

theorem exists_seekHole (hp : p < f.size) : ∃ h, f.seekHole p = some h ∧ p ≤ h ∧ h ≤ f.size ∧
    (∀ i, p ≤ i → i < h → f.data i = true) ∧ (h < f.size → f.data h = false) := by
  rw [seekHole, if_pos hp]
  refine ⟨_, rfl, ?_⟩
  cases hf : (List.range' p (f.size - p)).find? fun i => !f.data i with
  | none =>
    rw [List.find?_eq_none] at hf
    refine ⟨hp.le, le_rfl, ?_, fun h => absurd h (lt_irrefl _)⟩
    intro i hi hlt
    change i < f.size at hlt
    simpa using hf i (List.mem_range'_1.mpr (by omega))
  | some d =>
    obtain ⟨hd, hmem, hbefore⟩ := List.find?_range'_eq_some.mp hf
    rw [List.mem_range'_1] at hmem
    refine ⟨hmem.1, ?_, ?_, fun _ => by simpa using hd⟩
    · change d ≤ f.size
      omega
    · intro i hi hlt
      simpa using hbefore i hi hlt

end Sparse

end SparseFile
