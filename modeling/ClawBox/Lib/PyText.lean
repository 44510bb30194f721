import ClawBox.Lib.Fields

namespace PyText

open Fields

def isSpace (c : Char) : Bool := Fields.isSpace c || (0x1C ≤ c.toNat && c.toNat ≤ 0x1F)

def strip (s : Text) : Text := ((s.dropWhile isSpace).reverse.dropWhile isSpace).reverse

def decimalZeros : List ℕ :=
  [0x30, 0x660, 0x6F0, 0x7C0, 0x966, 0x9E6, 0xA66, 0xAE6, 0xB66, 0xBE6, 0xC66, 0xCE6, 0xD66, 0xDE6, 0xE50, 0xED0, 0xF20,
    0x1040, 0x1090, 0x17E0, 0x1810, 0x1946, 0x19D0, 0x1A80, 0x1A90, 0x1B50, 0x1BB0, 0x1C40, 0x1C50, 0xA620, 0xA8D0,
    0xA900, 0xA9D0, 0xA9F0, 0xAA50, 0xABF0, 0xFF10, 0x104A0, 0x10D30, 0x11066, 0x110F0, 0x11136, 0x111D0, 0x112F0,
    0x11450, 0x114D0, 0x11650, 0x116C0, 0x11730, 0x118E0, 0x11950, 0x11C50, 0x11D50, 0x11DA0, 0x11F50, 0x16A60, 0x16AC0,
    0x16B50, 0x1D7CE, 0x1D7D8, 0x1D7E2, 0x1D7EC, 0x1D7F6, 0x1E140, 0x1E2F0, 0x1E4F0, 0x1E950, 0x1FBF0]

def otherDigits : List (ℕ × ℕ) :=
  [(0xB2, 0xB3), (0xB9, 0xB9), (0x1369, 0x1371), (0x19DA, 0x19DA), (0x2070, 0x2070), (0x2074, 0x2079), (0x2080, 0x2089),
    (0x2460, 0x2468), (0x2474, 0x247C), (0x2488, 0x2490), (0x24EA, 0x24EA), (0x24F5, 0x24FD), (0x24FF, 0x24FF),
    (0x2776, 0x277E), (0x2780, 0x2788), (0x278A, 0x2792), (0x10A40, 0x10A43), (0x10E60, 0x10E68), (0x11052, 0x1105A),
    (0x1F100, 0x1F10A)]

def decimalValue (c : Char) : Option ℕ :=
  (decimalZeros.find? fun z => z ≤ c.toNat && c.toNat < z + 10).map fun z => c.toNat - z

def isDigit (c : Char) : Bool := (decimalValue c).isSome || otherDigits.any fun r => r.1 ≤ c.toNat && c.toNat ≤ r.2

def isdigit (s : Text) : Bool := s ≠ [] && s.all isDigit

def toInt : Text → ℕ → Option ℕ
  | [], n => some n
  | c :: cs, n =>
    match decimalValue c with
    | none => none
    | some d => toInt cs (10 * n + d)

def groupedInt (s : Text) : Option ℕ :=
  let groups := splitBy (· = '_') s
  if groups.all (· ≠ []) then toInt groups.flatten 0 else none

def int? (s : Text) : Option ℤ :=
  match strip s with
  | '-' :: s => (groupedInt s).map fun n => -(n : ℤ)
  | '+' :: s => (groupedInt s).map Nat.cast
  | s => (groupedInt s).map Nat.cast

def split (s : Text) : List Text := (splitBy isSpace s).filter (· ≠ [])

def digits (n : ℕ) : Text := Nat.toDigits 10 n

theorem decimalValue_of_isDigit {c : Char} (h : c.isDigit = true) : decimalValue c = some (c.toNat - '0'.toNat) := by
  have hc : 0x30 ≤ c.toNat ∧ c.toNat < 0x30 + 10 := by
    simp only [Char.isDigit, Bool.and_eq_true, decide_eq_true_eq, ge_iff_le, UInt32.le_iff_toNat_le] at h
    change 48 ≤ c.toNat ∧ c.toNat ≤ 57 at h
    omega
  rw [decimalValue, decimalZeros, List.find?_cons_of_pos (by simpa using hc)]
  rfl

theorem isDigit_of_mem_digits {n : ℕ} {c : Char} (h : c ∈ digits n) : c.isDigit = true :=
  Nat.isDigit_of_mem_toDigits (by decide) (by decide) h

theorem digits_ne_nil (n : ℕ) : digits n ≠ [] := Nat.toDigits_ne_nil

theorem isdigit_digits (n : ℕ) : isdigit (digits n) = true := by
  have hall : (digits n).all isDigit = true := by
    rw [List.all_eq_true]
    intro c hc
    rw [isDigit, decimalValue_of_isDigit (isDigit_of_mem_digits hc)]
    rfl
  rw [isdigit, hall]
  simp [digits_ne_nil]

theorem toInt_of_isDigit {s : Text} (h : ∀ c ∈ s, c.isDigit = true) (n : ℕ) :
    toInt s n = some (Nat.ofDigitChars 10 s n) := by
  induction s generalizing n with
  | nil => simp [toInt]
  | cons c s ih =>
    rw [toInt, decimalValue_of_isDigit (h c List.mem_cons_self), Nat.ofDigitChars_cons]
    exact ih (fun d hd => h d (List.mem_cons_of_mem c hd)) _

theorem toInt_digits (n : ℕ) : toInt (digits n) 0 = some n := by
  rw [toInt_of_isDigit fun c hc => isDigit_of_mem_digits hc, digits, Nat.ofDigitChars_ten_toDigits]

theorem dropWhile_eq_self {s : Text} (h : ∀ c ∈ s, isSpace c = false) : s.dropWhile isSpace = s := by
  cases s with
  | nil => rfl
  | cons c s => rw [List.dropWhile_cons_of_neg (by simp [h c List.mem_cons_self])]

theorem strip_eq_self {s : Text} (h : ∀ c ∈ s, isSpace c = false) : strip s = s := by
  rw [strip, dropWhile_eq_self h, dropWhile_eq_self, List.reverse_reverse]
  intro c hc
  exact h c (List.mem_reverse.1 hc)

theorem splitBy_intercalate {sep : Char} {parts : List Text} (h : ∀ p ∈ parts, sep ∉ p) (hne : parts ≠ []) :
    splitBy (· == sep) ([sep].intercalate parts) = parts := by
  rw [splitBy_eq]
  have := List.splitOn_intercalate sep h hne
  rwa [List.splitOn_eq_splitOnP] at this

section Find

theorem cut_append {sep : Char} {x : Text} (h : sep ∉ x) (y : Text) : cut sep (x ++ sep :: y) = some (x, y) := by
  induction x with
  | nil => rw [List.nil_append, cut, if_pos rfl]
  | cons c x ih =>
    rw [List.mem_cons, not_or] at h
    rw [List.cons_append, cut, if_neg (Ne.symm h.1), ih h.2]
    rfl

def find (needle : Text) : Text → Option (Text × Text)
  | [] => (needle.isPrefixOf? []).map fun rest => ([], rest)
  | c :: s =>
    match needle.isPrefixOf? (c :: s) with
    | some rest => some ([], rest)
    | none => (find needle s).map fun p => (c :: p.1, p.2)

def Before (needle x : Text) : Prop := find needle (x ++ needle) = some (x, [])

theorem isPrefixOf?_self_append (p r : Text) : p.isPrefixOf? (p ++ r) = some r := by
  induction p with
  | nil => rfl
  | cons c p ih => rw [List.cons_append, List.isPrefixOf?, if_pos (by simp), ih]

theorem isPrefixOf?_none_append {p s : Text} (h : p.isPrefixOf? s = none) (hlen : p.length ≤ s.length) (t : Text) :
    p.isPrefixOf? (s ++ t) = none := by
  induction p generalizing s with
  | nil => cases h
  | cons c p ih =>
    cases s with
    | nil => simp at hlen
    | cons d s =>
      rw [List.isPrefixOf?] at h
      rw [List.cons_append, List.isPrefixOf?]
      split_ifs at h ⊢ with hcd
      · exact ih h (by simpa using hlen)
      · rfl

theorem isPrefixOf?_none_longer {p s : Text} (h : p.isPrefixOf? s = none) (q : Text) :
    (p ++ q).isPrefixOf? s = none := by
  induction p generalizing s with
  | nil => cases h
  | cons c p ih =>
    cases s with
    | nil => rfl
    | cons d s =>
      rw [List.isPrefixOf?] at h
      rw [List.cons_append, List.isPrefixOf?]
      split_ifs at h ⊢ with hcd
      · exact ih h
      · rfl

theorem find_none_longer {needle s : Text} (h : find needle s = none) (more : Text) :
    find (needle ++ more) s = none := by
  induction s with
  | nil =>
    rw [find, Option.map_eq_none_iff] at h
    rw [find, isPrefixOf?_none_longer h more]
    rfl
  | cons c s ih =>
    rw [find] at h
    cases hp : needle.isPrefixOf? (c :: s) with
    | some r =>
      rw [hp] at h
      cases h
    | none =>
      rw [hp] at h
      rw [find, isPrefixOf?_none_longer hp more]
      simp only [ih (Option.map_eq_none_iff.1 h), Option.map_none]

theorem find_self (needle rest : Text) : find needle (needle ++ rest) = some ([], rest) := by
  cases h : needle ++ rest with
  | nil =>
    obtain ⟨rfl, rfl⟩ := List.append_eq_nil_iff.1 h
    rfl
  | cons c s => rw [find, ← h, isPrefixOf?_self_append]

theorem find_before {needle x : Text} (h : Before needle x) (rest : Text) :
    find needle (x ++ (needle ++ rest)) = some (x, rest) := by
  induction x with
  | nil => exact find_self needle rest
  | cons c x ih =>
    rw [Before, List.cons_append, find] at h
    cases hp : needle.isPrefixOf? (c :: (x ++ needle)) with
    | some r =>
      rw [hp] at h
      cases h
    | none =>
      rw [hp] at h
      obtain ⟨q, hq, hpair⟩ := Option.map_eq_some_iff.1 h
      obtain ⟨-, rfl⟩ := List.cons.inj (Prod.mk.inj hpair).1
      have hrest : q.2 = [] := (Prod.mk.inj hpair).2
      have hbefore : Before needle q.1 := by rw [Before, hq, ← hrest]
      have hlong := isPrefixOf?_none_append hp (by simp; omega) rest
      rw [List.cons_append, List.append_assoc] at hlong
      rw [List.cons_append, find, hlong, ih hbefore]
      rfl

end Find

end PyText
