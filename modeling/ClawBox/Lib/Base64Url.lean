import Mathlib.Data.List.Basic
import Mathlib.Tactic.Common

namespace Base64Url

def symbol (n : ℕ) : Char :=
  if n < 26 then Char.ofNat (65 + n)
  else if n < 52 then Char.ofNat (71 + n)
  else if n < 62 then Char.ofNat (n - 4)
  else if n = 62 then '-'
  else '_'

def sextet (c : Char) : Option ℕ :=
  if 'A' ≤ c ∧ c ≤ 'Z' then some (c.toNat - 65)
  else if 'a' ≤ c ∧ c ≤ 'z' then some (c.toNat - 71)
  else if '0' ≤ c ∧ c ≤ '9' then some (c.toNat + 4)
  else if c = '-' then some 62
  else if c = '_' then some 63
  else none

def sextets : List UInt8 → List ℕ
  | [] => []
  | [a] => [a.toNat / 4, a.toNat % 4 * 16]
  | [a, b] => [a.toNat / 4, a.toNat % 4 * 16 + b.toNat / 16, b.toNat % 16 * 4]
  | a :: b :: c :: rest =>
    a.toNat / 4 :: (a.toNat % 4 * 16 + b.toNat / 16) :: (b.toNat % 16 * 4 + c.toNat / 64) :: c.toNat % 64 ::
      sextets rest

def octets : List ℕ → Option (List UInt8)
  | [] => some []
  | [_] => none
  | [s, t] => some [UInt8.ofNat (s * 4 + t / 16)]
  | [s, t, u] => some [UInt8.ofNat (s * 4 + t / 16), UInt8.ofNat (t % 16 * 16 + u / 4)]
  | s :: t :: u :: v :: rest => (octets rest).map fun bytes =>
    UInt8.ofNat (s * 4 + t / 16) :: UInt8.ofNat (t % 16 * 16 + u / 4) :: UInt8.ofNat (u % 4 * 64 + v) :: bytes

def encode (bytes : List UInt8) : List Char := (sextets bytes).map symbol

def decodeRaw (text : List Char) : Option (List UInt8) :=
  ((text.filter fun c => c ≠ '\r' ∧ c ≠ '\n').mapM sextet).bind octets

/-- A reader of four characters after four: how many of them are read, the bits that are left, the padding, and the
bytes. -/
structure Quad where
  position : ℕ := 0
  left : ℕ := 0
  pads : ℕ := 0
  bytes : List UInt8 := []

def Quad.take (q : Quad) (v : ℕ) : Quad :=
  match q.position with
  | 0 => { q with position := 1, left := v, pads := 0 }
  | 1 => { position := 2, left := v % 16, bytes := q.bytes ++ [UInt8.ofNat (q.left * 4 + v / 16)] }
  | 2 => { position := 3, left := v % 4, bytes := q.bytes ++ [UInt8.ofNat (q.left * 16 + v / 4)] }
  | _ => { bytes := q.bytes ++ [UInt8.ofNat (q.left * 64 + v)] }

def Quad.read (q : Quad) (c : Char) : Bool × Quad :=
  if c = '=' then
    if 2 ≤ q.position then (4 ≤ q.position + (q.pads + 1), { q with pads := q.pads + 1 }) else (false, q)
  else
    match sextet (if c = '+' then '-' else if c = '/' then '_' else c) with
    | none => (false, q)
    | some v => (false, q.take v)

def Quad.readAll (q : Quad) : List Char → Option (List UInt8)
  | [] => if q.position = 0 then some q.bytes else none
  | c :: rest =>
    match q.read c with
    | (true, q) => some q.bytes
    | (false, q) => q.readAll rest

def decodeLenient (text : List Char) : Option (List UInt8) :=
  if text.all fun c => c.toNat < 128 then ({} : Quad).readAll text else none

def padding (n : ℕ) : List Char := List.replicate ((4 - n % 4) % 4) '='

theorem sextet_symbol {n : ℕ} (h : n < 64) : sextet (symbol n) = some n := by
  have hall : ∀ n < 64, sextet (symbol n) = some n := by decide
  exact hall n h

theorem symbol_plain {n : ℕ} (h : n < 64) :
    (45 ≤ (symbol n).toNat ∧ (symbol n).toNat < 128) ∧ symbol n ≠ '=' ∧ symbol n ≠ '+' ∧ symbol n ≠ '/' := by
  have hall : ∀ n < 64, (45 ≤ (symbol n).toNat ∧ (symbol n).toNat < 128) ∧ symbol n ≠ '=' ∧ symbol n ≠ '+' ∧
      symbol n ≠ '/' := by decide
  exact hall n h

theorem sextets_lt (bytes : List UInt8) : ∀ s ∈ sextets bytes, s < 64 := by
  fun_induction sextets bytes with
  | case1 => simp
  | case2 a =>
    have ha := a.toNat_lt
    simp only [List.mem_cons, List.not_mem_nil, or_false]
    rintro s (rfl | rfl)
    · omega
    · omega
  | case3 a b =>
    have ha := a.toNat_lt
    have hb := b.toNat_lt
    simp only [List.mem_cons, List.not_mem_nil, or_false]
    rintro s (rfl | rfl | rfl)
    · omega
    · omega
    · omega
  | case4 a b c rest ih =>
    have ha := a.toNat_lt
    have hb := b.toNat_lt
    have hc := c.toNat_lt
    simp only [List.mem_cons]
    rintro s (rfl | rfl | rfl | rfl | hs)
    · omega
    · omega
    · omega
    · omega
    · exact ih s hs

theorem ofNat_eq {n : ℕ} {a : UInt8} (h : n = a.toNat) : UInt8.ofNat n = a := by
  rw [h, UInt8.ofNat_toNat]

theorem octets_sextets (bytes : List UInt8) : octets (sextets bytes) = some bytes := by
  fun_induction sextets bytes with
  | case1 => rfl
  | case2 a =>
    have ha := a.toNat_lt
    rw [octets, ofNat_eq (a := a) (by omega)]
  | case3 a b =>
    have ha := a.toNat_lt
    have hb := b.toNat_lt
    rw [octets, ofNat_eq (a := a) (by omega), ofNat_eq (a := b) (by omega)]
  | case4 a b c rest ih =>
    have ha := a.toNat_lt
    have hb := b.toNat_lt
    have hc := c.toNat_lt
    rw [octets, ih, ofNat_eq (a := a) (by omega), ofNat_eq (a := b) (by omega), ofNat_eq (a := c) (by omega)]
    rfl

theorem mapM_sextet {ss : List ℕ} (h : ∀ s ∈ ss, s < 64) : (ss.map symbol).mapM sextet = some ss := by
  induction ss with
  | nil => rfl
  | cons s ss ih =>
    rw [List.map_cons, List.mapM_cons, sextet_symbol (h s List.mem_cons_self),
      ih fun t ht => h t (List.mem_cons_of_mem _ ht)]
    rfl

theorem mem_encode {bytes : List UInt8} {c : Char} (h : c ∈ encode bytes) : 45 ≤ c.toNat ∧ c.toNat < 128 := by
  obtain ⟨s, hs, rfl⟩ := List.mem_map.1 h
  exact (symbol_plain (sextets_lt bytes s hs)).1

theorem encode_ne_nil {bytes : List UInt8} (h : bytes ≠ []) : encode bytes ≠ [] := by
  intro hnil
  have hback := octets_sextets bytes
  rw [List.map_eq_nil_iff.1 hnil] at hback
  exact h (Option.some.inj hback).symm

theorem decodeRaw_encode (bytes : List UInt8) : decodeRaw (encode bytes) = some bytes := by
  have hkeep : (encode bytes).filter (fun c => c ≠ '\r' ∧ c ≠ '\n') = encode bytes := by
    rw [List.filter_eq_self]
    intro c hc
    have hlow := (mem_encode hc).1
    simp only [decide_eq_true_eq]
    constructor
    · rintro rfl
      exact absurd hlow (by decide)
    · rintro rfl
      exact absurd hlow (by decide)
  rw [decodeRaw, hkeep, encode, mapM_sextet (sextets_lt bytes), Option.bind_some, octets_sextets]

section Lenient

theorem readAll_symbol (q : Quad) {v : ℕ} (h : v < 64) (rest : List Char) :
    q.readAll (symbol v :: rest) = (q.take v).readAll rest := by
  obtain ⟨-, hpad, hplus, hslash⟩ := symbol_plain h
  rw [Quad.readAll, Quad.read, if_neg hpad, if_neg hplus, if_neg hslash, sextet_symbol h]

theorem readAll_symbols {ss : List ℕ} {bytes : List UInt8} (hs : ∀ s ∈ ss, s < 64) (ho : octets ss = some bytes)
    (q : Quad) (hq : q.position = 0) : q.readAll (ss.map symbol ++ padding ss.length) = some (q.bytes ++ bytes) := by
  obtain ⟨position, left, pads, done⟩ := q
  obtain rfl : position = 0 := hq
  fun_induction octets ss generalizing bytes left pads done with
  | case1 =>
    cases ho
    simp [padding, Quad.readAll]
  | case2 => cases ho
  | case3 s t =>
    cases ho
    simp only [List.mem_cons, List.not_mem_nil, or_false, forall_eq_or_imp, forall_eq] at hs
    simp only [List.map_cons, List.cons_append, readAll_symbol _ hs.1, readAll_symbol _ hs.2]
    rfl
  | case4 s t u =>
    cases ho
    simp only [List.mem_cons, List.not_mem_nil, or_false, forall_eq_or_imp, forall_eq] at hs
    simp only [List.map_cons, List.cons_append, readAll_symbol _ hs.1, readAll_symbol _ hs.2.1, readAll_symbol _ hs.2.2]
    simp only [Quad.take, List.append_assoc]
    rfl
  | case5 s t u v rest ih =>
    obtain ⟨more, hmore, rfl⟩ := Option.map_eq_some_iff.1 ho
    simp only [List.mem_cons, forall_eq_or_imp] at hs
    obtain ⟨h₁, h₂, h₃, h₄, hrest⟩ := hs
    have hpad : padding (s :: t :: u :: v :: rest).length = padding rest.length := by
      simp only [padding, List.length_cons]
      congr 1
      omega
    simp only [hpad, List.map_cons, List.cons_append, readAll_symbol _ h₁, readAll_symbol _ h₂, readAll_symbol _ h₃,
      readAll_symbol _ h₄]
    simp only [Quad.take]
    rw [ih hrest hmore]
    simp

theorem decodeLenient_encode (bytes : List UInt8) :
    decodeLenient (encode bytes ++ padding (encode bytes).length) = some bytes := by
  have hascii : (encode bytes ++ padding (encode bytes).length).all (fun c => c.toNat < 128) = true := by
    rw [List.all_append, Bool.and_eq_true, List.all_eq_true, List.all_eq_true]
    constructor
    · intro c hc
      simpa using (mem_encode hc).2
    · intro c hc
      rw [List.eq_of_mem_replicate hc]
      decide
  rw [decodeLenient, if_pos hascii, encode, List.length_map,
    readAll_symbols (sextets_lt bytes) (octets_sextets bytes) {} rfl, List.nil_append]

end Lenient

end Base64Url
