import Mathlib

namespace Fields

abbrev Text := List Char

def splitBy (sep : Char → Bool) : Text → List Text
  | [] => [[]]
  | c :: cs => if sep c then [] :: splitBy sep cs else (splitBy sep cs).modifyHead (c :: ·)

def lines (s : Text) : List Text := splitBy (· == '\n') s

def isSpace (c : Char) : Bool :=
  (9 ≤ c.toNat && c.toNat ≤ 13) || c.toNat = 0x20 || c.toNat = 0x85 || c.toNat = 0xA0 || c.toNat = 0x1680 ||
    (0x2000 ≤ c.toNat && c.toNat ≤ 0x200A) || c.toNat = 0x2028 || c.toNat = 0x2029 || c.toNat = 0x202F ||
    c.toNat = 0x205F || c.toNat = 0x3000

def fields (s : Text) : List Text := (splitBy isSpace s).filter (fun f => !f.isEmpty)

def cut (sep : Char) : Text → Option (Text × Text)
  | [] => none
  | c :: cs => if c = sep then some ([], cs) else (cut sep cs).map (fun p => (c :: p.1, p.2))

def afterLast (sep : Char) : Text → Option Text
  | [] => none
  | c :: cs => match afterLast sep cs with
    | some rest => some rest
    | none => if c = sep then some cs else none

def trimLeft (s : Text) : Text := s.dropWhile isSpace

def trimSpace (s : Text) : Text := (trimLeft (trimLeft s).reverse).reverse

def stripPrefix? : Text → Text → Option Text
  | [], s => some s
  | _ :: _, [] => none
  | p :: ps, c :: cs => if p = c then stripPrefix? ps cs else none

inductive ParseError where
  | syntaxError
  | rangeError
  deriving DecidableEq

def parseDigits : ℕ → Text → ℕ × Option ParseError
  | n, [] => (n, none)
  | n, c :: cs =>
    if c.isDigit then
      if n ≥ 2 ^ 64 / 10 + 1 then (2 ^ 64 - 1, some .rangeError)
      else if n * 10 + (c.toNat - '0'.toNat) ≥ 2 ^ 64 then (2 ^ 64 - 1, some .rangeError)
      else parseDigits (n * 10 + (c.toNat - '0'.toNat)) cs
    else (0, some .syntaxError)

def parseUint (s : Text) : ℕ × Option ParseError :=
  if s = [] then (0, some .syntaxError) else parseDigits 0 s

/-- `strconv.ParseInt(s, 10, 64)`: an error comes with 0 or with the nearest bound. -/
def parseSigned (neg : Bool) (s : Text) : ℤ × Option ParseError :=
  match parseUint s with
  | (_, some .syntaxError) => (0, some .syntaxError)
  | (n, err) =>
    if neg then
      if n > 2 ^ 63 then (-2 ^ 63, some .rangeError) else (-n, err)
    else
      if n ≥ 2 ^ 63 then (2 ^ 63 - 1, some .rangeError) else (n, err)

def parseInt : Text → ℤ × Option ParseError
  | '+' :: s => parseSigned false s
  | '-' :: s => parseSigned true s
  | s => parseSigned false s

theorem splitBy_eq (sep : Char → Bool) (s : Text) : splitBy sep s = s.splitOnP sep := by
  induction s with
  | nil => exact List.splitOnP_nil.symm
  | cons c s ih => rw [splitBy, List.splitOnP_cons_eq_if_modifyHead, ih]

theorem lines_eq (s : Text) : lines s = s.splitOn '\n' := by
  rw [lines, splitBy_eq, List.splitOn_eq_splitOnP]

theorem not_mem_of_mem_splitBy {sep : Char → Bool} {s l : Text} (h : l ∈ splitBy sep s) : ∀ c ∈ l, sep c = false := by
  induction s generalizing l with
  | nil =>
    rw [splitBy, List.mem_singleton] at h
    simp [h]
  | cons c s ih =>
    rw [splitBy] at h
    split_ifs at h with hc
    · cases List.mem_cons.1 h with
      | inl hl => simp [hl]
      | inr hl => exact ih hl
    · cases hs : splitBy sep s with
      | nil => simp [hs] at h
      | cons d ds =>
        rw [hs, List.modifyHead_cons, List.mem_cons] at h
        cases h with
        | inl hl =>
          rw [hl, List.forall_mem_cons]
          exact ⟨by simpa using hc, ih (by simp [hs])⟩
        | inr hl => exact ih (by simp [hs, hl])

theorem splitBy_ne_nil (sep : Char → Bool) (s : Text) : splitBy sep s ≠ [] := by
  rw [splitBy_eq]
  exact List.splitOnP_ne_nil _ _

theorem mem_splitBy {sep : Char → Bool} {s : Text} {c : Char} (hc : c ∈ s) (hsep : sep c = false) :
    ∃ part ∈ splitBy sep s, c ∈ part := by
  induction s with
  | nil => cases hc
  | cons d s ih =>
    rw [splitBy]
    by_cases hd : sep d = true
    · have hmem : c ∈ s := by
        cases List.mem_cons.1 hc with
        | inl heq => rw [heq, hd] at hsep; cases hsep
        | inr hmem => exact hmem
      obtain ⟨part, hp, hcp⟩ := ih hmem
      rw [if_pos hd]
      exact ⟨part, List.mem_cons_of_mem _ hp, hcp⟩
    · rw [if_neg hd]
      cases hs : splitBy sep s with
      | nil => exact absurd hs (splitBy_ne_nil sep s)
      | cons p ps =>
        rw [List.modifyHead_cons]
        cases List.mem_cons.1 hc with
        | inl heq => exact ⟨d :: p, List.mem_cons_self, heq ▸ List.mem_cons_self⟩
        | inr hmem =>
          obtain ⟨part, hp, hcp⟩ := ih hmem
          rw [hs] at hp
          cases List.mem_cons.1 hp with
          | inl heq => exact ⟨d :: p, List.mem_cons_self, List.mem_cons_of_mem _ (heq ▸ hcp)⟩
          | inr htail => exact ⟨part, List.mem_cons_of_mem _ htail, hcp⟩

theorem lines_ne_nil (s : Text) : lines s ≠ [] := by
  rw [lines_eq]
  exact List.splitOn_ne_nil _ _

theorem exists_lines {s : Text} {ls : List Text} (h : ls.Perm (lines s)) : ∃ s', lines s' = ls := by
  refine ⟨['\n'].intercalate ls, ?_⟩
  rw [lines_eq]
  apply List.splitOn_intercalate
  · intro l hl hmem
    have := not_mem_of_mem_splitBy (h.subset hl) '\n' hmem
    simp at this
  · rintro rfl
    exact lines_ne_nil s (List.Perm.nil_eq h).symm

end Fields
