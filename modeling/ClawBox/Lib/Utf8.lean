import Mathlib.Data.List.Basic
import Mathlib.Tactic.Common

namespace Utf8

def encode (s : List Char) : List UInt8 := s.flatMap String.utf8EncodeChar

def decode (b : List UInt8) : Option (List Char) := b.toByteArray.utf8Decode?.map Array.toList

theorem decode_encode (s : List Char) : decode (encode s) = some s := by
  have h := List.utf8Decode?_utf8Encode (l := s)
  rw [List.utf8Encode] at h
  rw [decode, encode, h]
  simp

theorem encode_inj {s t : List Char} : encode s = encode t ↔ s = t := by
  constructor
  · intro h
    have ht := decode_encode t
    rw [← h, decode_encode] at ht
    exact Option.some.inj ht
  · rintro rfl
    rfl

theorem encode_append (s t : List Char) : encode (s ++ t) = encode s ++ encode t := List.flatMap_append

@[simp] theorem encode_nil : encode [] = [] := rfl

theorem utf8EncodeChar_small {c : Char} (h : c.toNat < 128) : String.utf8EncodeChar c = [UInt8.ofNat c.toNat] := by
  have hle : c.val.toNat ≤ 0x7f := by
    have hval : c.val.toNat = c.toNat := rfl
    omega
  rw [String.utf8EncodeChar]
  simp only [if_pos hle]
  rfl

theorem mem_utf8EncodeChar {c : Char} {b : UInt8} (hb : b.toNat < 128) (h : b ∈ String.utf8EncodeChar c) :
    c.toNat = b.toNat := by
  have hval : c.val.toNat = c.toNat := rfl
  have hbig : ∀ n, 128 ≤ n % 256 → b ≠ UInt8.ofNat n := by
    rintro n hn rfl
    rw [UInt8.toNat_ofNat'] at hb
    omega
  rw [String.utf8EncodeChar] at h
  split_ifs at h with h1 h2 h3
  · obtain rfl := List.mem_singleton.1 h
    rw [UInt8.toNat_ofNat']
    omega
  · simp only [List.mem_cons, List.not_mem_nil, or_false] at h
    rcases h with h | h
    · exact absurd h (hbig _ (by omega))
    · exact absurd h (hbig _ (by omega))
  · simp only [List.mem_cons, List.not_mem_nil, or_false] at h
    rcases h with h | h | h
    · exact absurd h (hbig _ (by omega))
    · exact absurd h (hbig _ (by omega))
    · exact absurd h (hbig _ (by omega))
  · simp only [List.mem_cons, List.not_mem_nil, or_false] at h
    rcases h with h | h | h | h
    · exact absurd h (hbig _ (by omega))
    · exact absurd h (hbig _ (by omega))
    · exact absurd h (hbig _ (by omega))
    · exact absurd h (hbig _ (by omega))

theorem mem_encode {s : List Char} {c : Char} (hc : c.toNat < 128) : UInt8.ofNat c.toNat ∈ encode s ↔ c ∈ s := by
  have hbyte : (UInt8.ofNat c.toNat).toNat = c.toNat := by
    rw [UInt8.toNat_ofNat']
    omega
  rw [encode, List.mem_flatMap]
  constructor
  · rintro ⟨d, hd, hmem⟩
    have hnat := mem_utf8EncodeChar (by omega) hmem
    rw [hbyte] at hnat
    rwa [← Char.toNat_inj.1 hnat]
  · intro h
    refine ⟨c, h, ?_⟩
    rw [utf8EncodeChar_small hc]
    exact List.mem_singleton.2 rfl

section Lossy

def runeLength (b : UInt8) : ℕ := if b < 0x80 then 1 else if b < 0xE0 then 2 else if b < 0xF0 then 3 else 4

/-- Go's reading of bytes as characters: each byte that begins none is the replacement character. -/
def runes : ℕ → List UInt8 → List Char
  | 0, _ => []
  | _, [] => []
  | f + 1, a :: rest =>
    match decode ((a :: rest).take (runeLength a)) with
    | some [c] => c :: runes f ((a :: rest).drop (runeLength a))
    | _ => '\uFFFD' :: runes f rest

def decodeLossy (b : List UInt8) : List Char := runes b.length b

theorem utf8EncodeChar_cons (c : Char) :
    ∃ a rest, String.utf8EncodeChar c = a :: rest ∧ (a :: rest).length = runeLength a := by
  have hval : c.val.toNat = c.toNat := rfl
  rw [String.utf8EncodeChar]
  split_ifs with h1 h2 h3
  · refine ⟨_, _, rfl, ?_⟩
    rw [runeLength, if_pos]
    · rfl
    · rw [UInt8.lt_iff_toNat_lt]
      simp
      omega
  · refine ⟨_, _, rfl, ?_⟩
    rw [runeLength, if_neg, if_pos]
    · rfl
    · rw [UInt8.lt_iff_toNat_lt]
      simp
      omega
    · rw [UInt8.lt_iff_toNat_lt]
      simp
      omega
  · refine ⟨_, _, rfl, ?_⟩
    rw [runeLength, if_neg, if_neg, if_pos]
    · rfl
    · rw [UInt8.lt_iff_toNat_lt]
      simp
      omega
    · rw [UInt8.lt_iff_toNat_lt]
      simp
      omega
    · rw [UInt8.lt_iff_toNat_lt]
      simp
      omega
  · refine ⟨_, _, rfl, ?_⟩
    rw [runeLength, if_neg, if_neg, if_neg]
    · rfl
    · rw [UInt8.lt_iff_toNat_lt]
      simp
      omega
    · rw [UInt8.lt_iff_toNat_lt]
      simp
      omega
    · rw [UInt8.lt_iff_toNat_lt]
      simp
      omega

theorem runes_encode {s : List Char} {f : ℕ} (hf : (encode s).length ≤ f) : runes f (encode s) = s := by
  induction s generalizing f with
  | nil => cases f <;> rfl
  | cons c s ih =>
    obtain ⟨a, rest, hc, hlen⟩ := utf8EncodeChar_cons c
    have hone : decode (a :: rest) = some [c] := by
      have h := decode_encode [c]
      rwa [encode, List.flatMap_cons, List.flatMap_nil, List.append_nil, hc] at h
    have htext : encode (c :: s) = (a :: rest) ++ encode s := by
      rw [← hc, encode, List.flatMap_cons, encode]
    rw [htext] at hf ⊢
    cases f with
    | zero => simp at hf
    | succ f =>
      rw [List.cons_append, runes, ← List.cons_append, ← hlen, List.take_left, List.drop_left, hone]
      simp only
      rw [ih]
      simp only [List.cons_append, List.length_cons, List.length_append] at hf
      omega

theorem decodeLossy_encode (s : List Char) : decodeLossy (encode s) = s := runes_encode (Nat.le_refl _)

end Lossy

end Utf8
