import ClawBox.Lib.JsonCut
import ClawBox.Lib.PyText
import Mathlib.Data.List.Sort
import Mathlib.Data.List.TakeWhile

namespace JsonText

def rawEscape (c : Char) : List Char :=
  match letter c with
  | some l => ['\\', l]
  | none => if c.toNat < 32 then unit c.toNat else [c]

theorem rawEscape_escapes : Escapes rawEscape := by
  intro f c r
  unfold rawEscape
  cases hl : letter c with
  | some l => exact scanString_escape f (letter_unescape hl r)
  | none =>
    have hquote : c ≠ '"' := by
      rintro rfl
      exact absurd hl (by decide)
    have hback : c ≠ '\\' := by
      rintro rfl
      exact absurd hl (by decide)
    simp only
    split_ifs with hcontrol
    · have hsmall : c.toNat < 0x10000 := by omega
      exact scanString_unit hsmall f (unicode_single hsmall r)
    · rw [List.singleton_append, scanString, if_neg hquote, if_neg hback, if_neg hcontrol]

def keyLe (a b : List Char × Json) : Bool := a.1 ≤ b.1

mutual

def sortKeys : Json → Json
  | .arr l => .arr (sortItems l)
  | .obj l => .obj ((sortMembers l).insertionSort fun a b => keyLe a b = true)
  | j => j

def sortItems : List Json → List Json
  | [] => []
  | j :: js => sortKeys j :: sortItems js

def sortMembers : List (List Char × Json) → List (List Char × Json)
  | [] => []
  | (k, j) :: l => (k, sortKeys j) :: sortMembers l

end

def canonical (j : Json) : List Char := dumps rawEscape (sortKeys j)

@[simp] theorem sortKeys_str (s : List Char) : sortKeys (.str s) = .str s := by simp [sortKeys]

@[simp] theorem sortKeys_num (t : List Char) : sortKeys (.num t) = .num t := by simp [sortKeys]

theorem sortMembers_eq (l : List (List Char × Json)) : sortMembers l = l.map fun m => (m.1, sortKeys m.2) := by
  induction l with
  | nil => rw [sortMembers, List.map_nil]
  | cons m l ih => rw [sortMembers, List.map_cons, ih]

theorem wellFormedMembers_iff (l : List (List Char × Json)) :
    wellFormedMembers l = true ↔ ∀ m ∈ l, wellFormed m.2 = true := by
  induction l with
  | nil => simp [wellFormedMembers]
  | cons m l ih => simp [wellFormedMembers, ih]

mutual

theorem wellFormed_sortKeys (j : Json) (hj : wellFormed j = true) : wellFormed (sortKeys j) = true := by
  cases j with
  | arr l =>
    rw [wellFormed] at hj
    rw [sortKeys, wellFormed]
    exact wellFormed_sortItems l hj
  | obj l =>
    rw [wellFormed] at hj
    rw [sortKeys, wellFormed, wellFormedMembers_iff]
    intro m hm
    rw [List.mem_insertionSort] at hm
    exact (wellFormedMembers_iff _).1 (wellFormed_sortMembers l hj) m hm
  | null => simpa [sortKeys] using hj
  | bool b => simpa [sortKeys] using hj
  | num t => simpa [sortKeys] using hj
  | str s => simpa [sortKeys] using hj

theorem wellFormed_sortItems (l : List Json) (hl : wellFormedItems l = true) :
    wellFormedItems (sortItems l) = true := by
  cases l with
  | nil => rw [sortItems, wellFormedItems]
  | cons j js =>
    rw [wellFormedItems, Bool.and_eq_true] at hl
    rw [sortItems, wellFormedItems, wellFormed_sortKeys j hl.1, wellFormed_sortItems js hl.2]
    rfl

theorem wellFormed_sortMembers (l : List (List Char × Json)) (hl : wellFormedMembers l = true) :
    wellFormedMembers (sortMembers l) = true := by
  match l with
  | [] => rw [sortMembers, wellFormedMembers]
  | (k, j) :: l =>
    rw [wellFormedMembers, Bool.and_eq_true] at hl
    rw [sortMembers, wellFormedMembers, wellFormed_sortKeys j hl.1, wellFormed_sortMembers l hl.2]
    rfl

end

theorem canonical_eq_iff {a b : Json} (ha : wellFormed a = true) (hb : wellFormed b = true) :
    canonical a = canonical b ↔ sortKeys a = sortKeys b := by
  constructor
  · intro h
    have hread := loads_dumps rawEscape_escapes (wellFormed_sortKeys a ha)
    have hread' := loads_dumps rawEscape_escapes (wellFormed_sortKeys b hb)
    rw [canonical, canonical] at h
    rw [h, hread'] at hread
    exact (Option.some.inj hread).symm
  · intro h
    rw [canonical, canonical, h]

theorem mem_of_sortKeys_eq {l l' : List (List Char × Json)} (h : sortKeys (.obj l) = sortKeys (.obj l'))
    {k : List Char} {v : Json} (hv : (k, v) ∈ l) : ∃ v', (k, v') ∈ l' ∧ sortKeys v = sortKeys v' := by
  rw [sortKeys, sortKeys, Json.obj.injEq] at h
  have hmem : (k, sortKeys v) ∈ sortMembers l := by
    rw [sortMembers_eq]
    exact List.mem_map_of_mem (f := fun m : List Char × Json => (m.1, sortKeys m.2)) hv
  rw [← List.mem_insertionSort fun a b => keyLe a b = true, h, List.mem_insertionSort, sortMembers_eq] at hmem
  obtain ⟨m, hm, heq⟩ := List.mem_map.1 hmem
  simp only [Prod.mk.injEq] at heq
  exact ⟨m.2, heq.1 ▸ hm, heq.2.symm⟩

theorem head?_digits {n : ℕ} (hn : 0 < n) : (PyText.digits n).head? ≠ some '0' := by
  induction n using Nat.strongRecOn with
  | _ n ih =>
    unfold PyText.digits
    by_cases hlt : n < 10
    · have hsmall : ∀ n < 10, 0 < n → [Nat.digitChar n].head? ≠ some '0' := by decide
      rw [Nat.toDigits_of_lt_base hlt]
      exact hsmall n hlt hn
    · rw [Nat.toDigits_of_base_le (by decide) (by omega), List.head?_append_of_ne_nil _ Nat.toDigits_ne_nil]
      exact ih (n / 10) (by omega) (by omega)

theorem numberChar_of_isDigit {c : Char} (h : c.isDigit = true) : numberChar c = true := by
  simp [numberChar, h]

theorem wellFormed_digits (n : ℕ) : wellFormed (.num (PyText.digits n)) = true := by
  have hdigits : ∀ c ∈ PyText.digits n, c.isDigit = true := fun c hc => PyText.isDigit_of_mem_digits hc
  have hall : (PyText.digits n).all numberChar = true := by
    rw [List.all_eq_true]
    intro c hc
    exact numberChar_of_isDigit (hdigits c hc)
  have htake : (PyText.digits n).takeWhile Char.isDigit = PyText.digits n := List.takeWhile_eq_self_iff.2 hdigits
  have hdrop : (PyText.digits n).dropWhile Char.isDigit = [] := List.dropWhile_eq_nil_iff.2 hdigits
  have hsign : ∀ t, PyText.digits n ≠ '-' :: t := by
    intro t ht
    have := hdigits '-' (by simp [ht])
    exact absurd this (by decide)
  have hnum : numeral (PyText.digits n) = true := by
    unfold numeral
    split
    · rename_i t ht
      exact absurd ht (hsign t)
    · have hne : (PyText.digits n).isEmpty = false := by simp [PyText.digits_ne_nil]
      have hlead : (PyText.digits n).length = 1 ∨ (PyText.digits n).head? ≠ some '0' := by
        cases n with
        | zero => exact .inl (by decide)
        | succ n => exact .inr (head?_digits n.succ_pos)
      simp only [htake, hdrop, hne, fraction]
      simpa using hlead
  rw [wellFormed, hnum, hall]
  rfl

end JsonText
