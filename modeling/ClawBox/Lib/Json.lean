import Mathlib.Tactic.Common

namespace JsonText

inductive Json where
  | null
  | bool (b : Bool)
  -- the literal of a number
  | num (text : List Char)
  | str (s : List Char)
  | arr (items : List Json)
  | obj (members : List (List Char × Json))

def isSpace (c : Char) : Bool := c = ' ' || c = '\t' || c = '\n' || c = '\r'

def skip (s : List Char) : List Char := s.dropWhile isSpace

def numberChar (c : Char) : Bool := c.isDigit || c = '-' || c = '+' || c = '.' || c = 'e' || c = 'E'

def exponent : List Char → Bool
  | [] => true
  | '+' :: t => !t.isEmpty && t.all Char.isDigit
  | '-' :: t => !t.isEmpty && t.all Char.isDigit
  | t => !t.isEmpty && t.all Char.isDigit

def fraction : List Char → Bool
  | [] => true
  | '.' :: t => !(t.takeWhile Char.isDigit).isEmpty && tail (t.dropWhile Char.isDigit)
  | t => tail t
where tail : List Char → Bool
  | [] => true
  | 'e' :: t => !t.isEmpty && exponent t
  | 'E' :: t => !t.isEmpty && exponent t
  | _ => false

def numeral (t : List Char) : Bool :=
  let t := match t with
    | '-' :: t => t
    | t => t
  let whole := t.takeWhile Char.isDigit
  !whole.isEmpty && (whole.length = 1 || whole.head? ≠ some '0') && fraction (t.dropWhile Char.isDigit)

def hexDigit (c : Char) : Option ℕ :=
  if c.isDigit then some (c.toNat - 48)
  else if 'a' ≤ c ∧ c ≤ 'f' then some (c.toNat - 87)
  else if 'A' ≤ c ∧ c ≤ 'F' then some (c.toNat - 55)
  else none

def hex4 (a b c d : Char) : Option ℕ :=
  match hexDigit a, hexDigit b, hexDigit c, hexDigit d with
  | some a, some b, some c, some d => some (((a * 16 + b) * 16 + c) * 16 + d)
  | _, _, _, _ => none

def unicode (n : ℕ) (r : List Char) : Option (Char × List Char) :=
  if 0xD800 ≤ n ∧ n < 0xDC00 then
    match r with
    | '\\' :: 'u' :: a :: b :: c :: d :: r =>
      match hex4 a b c d with
      | none => none
      | some m =>
        if 0xDC00 ≤ m ∧ m < 0xE000 then some (Char.ofNat (0x10000 + (n - 0xD800) * 0x400 + (m - 0xDC00)), r) else none
    | _ => none
  else if 0xDC00 ≤ n ∧ n < 0xE000 then none
  else some (Char.ofNat n, r)

def unescape : List Char → Option (Char × List Char)
  | '"' :: r => some ('"', r)
  | '\\' :: r => some ('\\', r)
  | '/' :: r => some ('/', r)
  | 'b' :: r => some (Char.ofNat 8, r)
  | 'f' :: r => some (Char.ofNat 12, r)
  | 'n' :: r => some ('\n', r)
  | 'r' :: r => some ('\r', r)
  | 't' :: r => some ('\t', r)
  | 'u' :: a :: b :: c :: d :: r => (hex4 a b c d).bind fun n => unicode n r
  | _ => none

def push (c : Char) : Option (List Char × List Char) → Option (List Char × List Char) :=
  Option.map fun p => (c :: p.1, p.2)

def scanString : ℕ → List Char → Option (List Char × List Char)
  | 0, _ => none
  | _, [] => none
  | f + 1, c :: r =>
    if c = '"' then some ([], r)
    else if c = '\\' then (unescape r).bind fun p => push p.1 (scanString f p.2)
    else if c.toNat < 32 then none
    else push c (scanString f r)

def expect (c : Char) (s : List Char) : Option (List Char) :=
  match skip s with
  | d :: r => if d = c then some r else none
  | [] => none

inductive Head where
  | string (r : List Char)
  | array (r : List Char)
  | object (r : List Char)
  | literal (j : Json) (r : List Char)
  | other

def head : List Char → Head
  | '"' :: r => .string r
  | '[' :: r => .array r
  | '{' :: r => .object r
  | 'n' :: 'u' :: 'l' :: 'l' :: r => .literal .null r
  | 't' :: 'r' :: 'u' :: 'e' :: r => .literal (.bool true) r
  | 'f' :: 'a' :: 'l' :: 's' :: 'e' :: r => .literal (.bool false) r
  | s =>
    -- what follows a number is never a character of one, so the longest run is the literal
    if numeral (s.takeWhile numberChar) then .literal (.num (s.takeWhile numberChar))
      (s.dropWhile numberChar) else .other

mutual

def value : ℕ → List Char → Option (Json × List Char)
  | 0, _ => none
  | f + 1, s =>
    match head (skip s) with
    | .string r => (scanString f r).map fun p => (.str p.1, p.2)
    | .array r =>
      match expect ']' r with
      | some r => some (.arr [], r)
      | none => (items f r).map fun p => (.arr p.1, p.2)
    | .object r =>
      match expect '}' r with
      | some r => some (.obj [], r)
      | none => (members f r).map fun p => (.obj p.1, p.2)
    | .literal j r => some (j, r)
    | .other => none

def items : ℕ → List Char → Option (List Json × List Char)
  | 0, _ => none
  | f + 1, s =>
    (value f s).bind fun p =>
      match expect ',' p.2 with
      | some r => (items f r).map fun q => (p.1 :: q.1, q.2)
      | none => (expect ']' p.2).map fun r => ([p.1], r)

def members : ℕ → List Char → Option (List (List Char × Json) × List Char)
  | 0, _ => none
  | f + 1, s =>
    (expect '"' s).bind fun r =>
      (scanString f r).bind fun k =>
        (expect ':' k.2).bind fun r =>
          (value f r).bind fun p =>
            match expect ',' p.2 with
            | some r => (members f r).map fun q => ((k.1, p.1) :: q.1, q.2)
            | none => (expect '}' p.2).map fun r => ([(k.1, p.1)], r)

end

def loads (s : List Char) : Option Json :=
  match value (2 * s.length + 2) s with
  | some (j, r) => if (skip r).isEmpty then some j else none
  | none => none

def quote (e : Char → List Char) (s : List Char) : List Char := '"' :: s.flatMap e ++ ['"']

mutual

def dumps (e : Char → List Char) : Json → List Char
  | .null => ['n', 'u', 'l', 'l']
  | .bool true => ['t', 'r', 'u', 'e']
  | .bool false => ['f', 'a', 'l', 's', 'e']
  | .num t => t
  | .str s => quote e s
  | .arr l => '[' :: itemTexts e l ++ [']']
  | .obj l => '{' :: memberTexts e l ++ ['}']

def itemTexts (e : Char → List Char) : List Json → List Char
  | [] => []
  | [j] => dumps e j
  | j :: js => dumps e j ++ ',' :: itemTexts e js

def memberTexts (e : Char → List Char) : List (List Char × Json) → List Char
  | [] => []
  | [(k, j)] => quote e k ++ ':' :: dumps e j
  | (k, j) :: l => quote e k ++ ':' :: dumps e j ++ ',' :: memberTexts e l

end

section Fuel

theorem push_eq_some {c : Char} {o : Option (List Char × List Char)} {x : List Char × List Char}
    (h : push c o = some x) :
    ∃ y, o = some y ∧ x = (c :: y.1, y.2) := by
  obtain ⟨y, hy, rfl⟩ := Option.map_eq_some_iff.mp h
  exact ⟨y, hy, rfl⟩

theorem scanString_succ {f : ℕ} {s : List Char} {x : List Char × List Char} (h : scanString f s = some x) :
    scanString (f + 1) s = some x := by
  induction f generalizing s x with
  | zero => cases h
  | succ f ih =>
    cases s with
    | nil => cases h
    | cons c r =>
      rw [scanString] at h ⊢
      split_ifs at h ⊢ with hquote hback hlow
      · exact h
      · obtain ⟨p, hp, hrest⟩ := Option.bind_eq_some_iff.mp h
        obtain ⟨y, hy, rfl⟩ := push_eq_some hrest
        rw [hp, Option.bind_some, ih hy]
        rfl
      · obtain ⟨y, hy, rfl⟩ := push_eq_some h
        rw [ih hy]
        rfl

theorem reader_succ (f : ℕ) :
    (∀ {s x}, value f s = some x → value (f + 1) s = some x) ∧
    (∀ {s x}, items f s = some x → items (f + 1) s = some x) ∧
      ∀ {s x}, members f s = some x → members (f + 1) s = some x := by
  induction f with
  | zero => exact ⟨nofun, nofun, nofun⟩
  | succ f ih =>
    obtain ⟨hvalue, hitems, hmembers⟩ := ih
    refine ⟨?_, ?_, ?_⟩
    · intro s x h
      rw [value] at h ⊢
      cases hhead : head (skip s) with
      | string r =>
        simp only [hhead] at h ⊢
        obtain ⟨p, hp, rfl⟩ := Option.map_eq_some_iff.mp h
        rw [scanString_succ hp]
        rfl
      | array r =>
        simp only [hhead] at h ⊢
        cases hclose : expect ']' r with
        | some r' =>
          simp only [hclose] at h ⊢
          exact h
        | none =>
          simp only [hclose] at h ⊢
          obtain ⟨p, hp, rfl⟩ := Option.map_eq_some_iff.mp h
          rw [hitems hp]
          rfl
      | object r =>
        simp only [hhead] at h ⊢
        cases hclose : expect '}' r with
        | some r' =>
          simp only [hclose] at h ⊢
          exact h
        | none =>
          simp only [hclose] at h ⊢
          obtain ⟨p, hp, rfl⟩ := Option.map_eq_some_iff.mp h
          rw [hmembers hp]
          rfl
      | literal j r =>
        simp only [hhead] at h ⊢
        exact h
      | other =>
        simp only [hhead] at h
        cases h
    · intro s x h
      rw [items] at h ⊢
      obtain ⟨p, hp, hrest⟩ := Option.bind_eq_some_iff.mp h
      rw [hvalue hp, Option.bind_some]
      cases hcomma : expect ',' p.2 with
      | some r =>
        simp only [hcomma] at hrest ⊢
        obtain ⟨q, hq, rfl⟩ := Option.map_eq_some_iff.mp hrest
        rw [hitems hq]
        rfl
      | none =>
        simp only [hcomma] at hrest ⊢
        exact hrest
    · intro s x h
      rw [members] at h ⊢
      obtain ⟨r, hr, h⟩ := Option.bind_eq_some_iff.mp h
      obtain ⟨k, hk, h⟩ := Option.bind_eq_some_iff.mp h
      obtain ⟨r', hr', h⟩ := Option.bind_eq_some_iff.mp h
      obtain ⟨p, hp, hrest⟩ := Option.bind_eq_some_iff.mp h
      rw [hr, Option.bind_some, scanString_succ hk, Option.bind_some, hr', Option.bind_some, hvalue hp,
        Option.bind_some]
      cases hcomma : expect ',' p.2 with
      | some r =>
        simp only [hcomma] at hrest ⊢
        obtain ⟨q, hq, rfl⟩ := Option.map_eq_some_iff.mp hrest
        rw [hmembers hq]
        rfl
      | none =>
        simp only [hcomma] at hrest ⊢
        exact hrest

theorem value_mono {f f' : ℕ} (hf : f ≤ f') {s : List Char} {x : Json × List Char} (h : value f s = some x) :
    value f' s = some x := by
  induction hf with
  | refl => exact h
  | step _ ih => exact (reader_succ _).1 ih

end Fuel

section Prefixes

theorem head_number {s : List Char} {c : Char} (h : numberChar c = true) :
    head (c :: s) = if numeral ((c :: s).takeWhile numberChar) then
      .literal (.num ((c :: s).takeWhile numberChar)) ((c :: s).dropWhile numberChar) else .other := by
  unfold head
  split
  all_goals first
    | rfl
    | (rename_i heq
       obtain ⟨rfl, -⟩ := List.cons.inj heq
       exact absurd h (by decide))

theorem skip_ne_nil_of_value {f : ℕ} {s : List Char} {x : Json × List Char} (h : value f s = some x) : skip s ≠ [] := by
  intro hs
  cases f with
  | zero => cases h
  | succ f =>
    rw [value, hs] at h
    cases h

end Prefixes

section Writer

variable {e : Char → List Char}

def Escapes (e : Char → List Char) : Prop := ∀ f c r, scanString (f + 1) (e c ++ r) = push c (scanString f r)

mutual

def wellFormed : Json → Bool
  | .num t => numeral t && t.all numberChar
  | .arr l => wellFormedItems l
  | .obj l => wellFormedMembers l
  | _ => true

def wellFormedItems : List Json → Bool
  | [] => true
  | j :: js => wellFormed j && wellFormedItems js

def wellFormedMembers : List (List Char × Json) → Bool
  | [] => true
  | (_, j) :: l => wellFormed j && wellFormedMembers l

end

def Ends (r : List Char) : Prop := ∀ c r', r = c :: r' → numberChar c = false

theorem ends_cons {c : Char} (h : numberChar c = false) (r : List Char) : Ends (c :: r) := by
  intro c' r' hr
  obtain ⟨rfl, -⟩ := List.cons.inj hr
  exact h

theorem scanString_texts (he : Escapes e) (s r : List Char) {f : ℕ} (hf : s.length < f) :
    scanString f (s.flatMap e ++ '"' :: r) = some (s, r) := by
  induction s generalizing f with
  | nil =>
    cases f with
    | zero => cases hf
    | succ f => rfl
  | cons c s ih =>
    cases f with
    | zero => cases hf
    | succ f =>
      rw [List.flatMap_cons, List.append_assoc, he, ih (by simpa using hf)]
      rfl

theorem skip_cons {c : Char} (h : isSpace c = false) (r : List Char) : skip (c :: r) = c :: r := by
  unfold skip
  rw [List.dropWhile_cons_of_neg (by simp [h])]

theorem expect_self {c : Char} (h : isSpace c = false) (r : List Char) : expect c (c :: r) = some r := by
  unfold expect
  rw [skip_cons h]
  simp

theorem expect_ne {c d : Char} (h : isSpace d = false) (hcd : d ≠ c) (r : List Char) : expect c (d :: r) = none := by
  unfold expect
  rw [skip_cons h]
  simp [hcd]

theorem length_quote_le (he : Escapes e) (s : List Char) : s.length + 2 ≤ (quote e s).length := by
  have hpos : ∀ c, 0 < (e c).length := by
    intro c
    by_contra hnot
    have hnil : e c = [] := List.length_eq_zero_iff.mp (by omega)
    have h := he 1 c ['"']
    rw [hnil] at h
    cases h
  induction s with
  | nil => simp [quote]
  | cons c s ih =>
    have := hpos c
    simp only [quote, List.flatMap_cons, List.length_cons, List.length_append, List.length_nil] at ih ⊢
    omega

theorem head_literal {t : List Char} (hn : numeral t = true) (ht : t.all numberChar = true) {r : List Char}
    (hr : Ends r) :
    head (t ++ r) = .literal (.num t) r := by
  have hall : ∀ c ∈ t, numberChar c = true := List.all_eq_true.mp ht
  have htake : (t ++ r).takeWhile numberChar = t := by
    rw [List.takeWhile_append_of_pos hall]
    cases r with
    | nil => simp
    | cons c r => rw [List.takeWhile_cons_of_neg (by simp [hr c r rfl]), List.append_nil]
  have hdrop : (t ++ r).dropWhile numberChar = r := by
    rw [List.dropWhile_append_of_pos hall]
    cases r with
    | nil => rfl
    | cons c r => rw [List.dropWhile_cons_of_neg (by simp [hr c r rfl])]
  cases t with
  | nil => exact absurd hn (by decide)
  | cons c t =>
    have hc := hall c List.mem_cons_self
    rw [List.cons_append] at htake hdrop ⊢
    rw [head_number hc, htake, hdrop, if_pos hn]

theorem not_space_of_numberChar {c : Char} (h : numberChar c = true) : isSpace c = false := by
  by_contra hs
  simp only [isSpace, Bool.not_eq_false, Bool.or_eq_true, decide_eq_true_eq] at hs
  rcases hs with ((rfl | rfl) | rfl) | rfl <;> exact absurd h (by decide)

theorem skip_literal {t : List Char} (hn : numeral t = true) (ht : t.all numberChar = true) (r : List Char) :
    skip (t ++ r) = t ++ r := by
  cases t with
  | nil => exact absurd hn (by decide)
  | cons c t =>
    simp only [List.all_cons, Bool.and_eq_true] at ht
    exact skip_cons (not_space_of_numberChar ht.1) _

theorem quote_append (e : Char → List Char) (s r : List Char) : quote e s ++ r = '"' :: (s.flatMap e ++ '"' :: r) := by
  simp [quote]

theorem dumps_cons (e : Char → List Char) {j : Json} (hj : wellFormed j = true) :
    ∃ c t, dumps e j = c :: t ∧ isSpace c = false ∧ c ≠ ']' := by
  cases j with
  | null => exact ⟨_, _, rfl, by decide, by decide⟩
  | bool b => cases b <;> exact ⟨_, _, rfl, by decide, by decide⟩
  | num t =>
    simp only [wellFormed, Bool.and_eq_true] at hj
    cases t with
    | nil => exact absurd hj.1 (by decide)
    | cons c t =>
      simp only [List.all_cons, Bool.and_eq_true] at hj
      refine ⟨c, t, rfl, not_space_of_numberChar hj.2.1, ?_⟩
      rintro rfl
      exact absurd hj.2.1 (by decide)
  | str s => exact ⟨_, _, rfl, by decide, by decide⟩
  | arr l => exact ⟨_, _, rfl, by decide, by decide⟩
  | obj l => exact ⟨_, _, rfl, by decide, by decide⟩

theorem itemTexts_cons (e : Char → List Char) {j : Json} {js : List Json} (hj : wellFormed j = true) :
    ∃ c t, itemTexts e (j :: js) = c :: t ∧ isSpace c = false ∧ c ≠ ']' := by
  obtain ⟨c, t, hd, hspace, hclose⟩ := dumps_cons e hj
  cases js with
  | nil => exact ⟨c, t, by rw [itemTexts, hd], hspace, hclose⟩
  | cons j' js => exact ⟨c, _, by rw [itemTexts, hd]; rfl; simp, hspace, hclose⟩

theorem memberTexts_cons (e : Char → List Char) (k : List Char) (j : Json) (l : List (List Char × Json)) :
    ∃ c t, memberTexts e ((k, j) :: l) = '"' :: c :: t := by
  obtain ⟨c, t, hc⟩ := List.exists_cons_of_ne_nil (show k.flatMap e ++ ['"'] ≠ [] by simp)
  cases l with
  | nil =>
    refine ⟨c, t ++ ':' :: dumps e j, ?_⟩
    rw [memberTexts, quote, List.cons_append, hc]
    rfl
  | cons m l =>
    refine ⟨c, t ++ ':' :: (dumps e j ++ ',' :: memberTexts e (m :: l)), ?_⟩
    rw [memberTexts, quote, List.cons_append, hc]
    · simp
    · simp

mutual

theorem value_dumps (he : Escapes e) (j : Json) (hj : wellFormed j = true) {f : ℕ} (hf : 2 * (dumps e j).length ≤ f)
    {r : List Char} (hr : Ends r) : value f (dumps e j ++ r) = some (j, r) := by
  cases f with
  | zero =>
    obtain ⟨c, t, hd, -⟩ := dumps_cons e hj
    rw [hd, List.length_cons] at hf
    omega
  | succ f =>
    rw [value]
    match j with
    | .null => rfl
    | .bool true => rfl
    | .bool false => rfl
    | .num t =>
      simp only [wellFormed, Bool.and_eq_true] at hj
      rw [dumps, skip_literal hj.1 hj.2, head_literal hj.1 hj.2 hr]
    | .str s =>
      have hlen := length_quote_le he s
      rw [dumps] at hf
      rw [dumps, quote_append, skip_cons (by decide)]
      simp only [head]
      rw [scanString_texts he s r (by omega)]
      rfl
    | .arr [] => rfl
    | .arr (j' :: js) =>
      simp only [wellFormed] at hj
      have hj' : wellFormed j' = true := by
        rw [wellFormedItems, Bool.and_eq_true] at hj
        exact hj.1
      obtain ⟨c, t, htexts, hspace, hclose⟩ := itemTexts_cons e hj'
      have hitems := items_dumps he (j' :: js) (by simp) hj (f := f) (by
        simp only [dumps, List.cons_append, List.length_cons, List.length_append, List.length_nil] at hf
        omega) r
      have hshape : dumps e (.arr (j' :: js)) ++ r = '[' :: (itemTexts e (j' :: js) ++ ']' :: r) := by simp [dumps]
      rw [hshape, skip_cons (by decide)]
      simp only [head]
      rw [htexts, List.cons_append] at hitems ⊢
      rw [expect_ne hspace hclose, hitems]
      rfl
    | .obj [] => rfl
    | .obj ((k, j') :: l) =>
      simp only [wellFormed] at hj
      obtain ⟨c, t, htexts⟩ := memberTexts_cons e k j' l
      have hmembers := members_dumps he ((k, j') :: l) (by simp) hj (f := f) (by
        simp only [dumps, List.cons_append, List.length_cons, List.length_append, List.length_nil] at hf
        omega) r
      have hshape : dumps e (.obj ((k, j') :: l)) ++ r = '{' :: (memberTexts e ((k, j') :: l) ++ '}' :: r) := by
        simp [dumps]
      rw [hshape, skip_cons (by decide)]
      simp only [head]
      rw [htexts, List.cons_append] at hmembers ⊢
      rw [expect_ne (by decide) (by decide), hmembers]
      rfl

theorem items_dumps (he : Escapes e) (l : List Json) (hne : l ≠ []) (hl : wellFormedItems l = true) {f : ℕ}
    (hf : 2 * (itemTexts e l).length + 1 ≤ f) (r : List Char) :
    items f (itemTexts e l ++ ']' :: r) = some (l, r) := by
  cases f with
  | zero => omega
  | succ f =>
    match l with
    | [] => exact absurd rfl hne
    | [j] =>
      rw [wellFormedItems, Bool.and_eq_true] at hl
      rw [itemTexts] at hf ⊢
      rw [items, value_dumps he j hl.1 (by omega) (ends_cons (by decide) _), Option.bind_some]
      simp only [expect_ne (c := ',') (d := ']') (by decide) (by decide), expect_self (c := ']') (by decide)]
      rfl
    | j :: j' :: js =>
      rw [wellFormedItems, Bool.and_eq_true] at hl
      simp only [itemTexts, List.length_append, List.length_cons] at hf
      have hrest := items_dumps he (j' :: js) (by simp) hl.2 (f := f) (by omega) r
      rw [itemTexts, items, List.append_assoc, List.cons_append,
        value_dumps he j hl.1 (by omega) (ends_cons (by decide) _), Option.bind_some]
      simp only [expect_self (c := ',') (by decide), hrest]
      rfl
      simp

theorem members_dumps (he : Escapes e) (l : List (List Char × Json)) (hne : l ≠ []) (hl : wellFormedMembers l = true)
    {f : ℕ} (hf : 2 * (memberTexts e l).length + 1 ≤ f) (r : List Char) :
    members f (memberTexts e l ++ '}' :: r) = some (l, r) := by
  cases f with
  | zero => omega
  | succ f =>
    match l with
    | [] => exact absurd rfl hne
    | [(k, j)] =>
      have hlen := length_quote_le he k
      rw [wellFormedMembers, Bool.and_eq_true] at hl
      simp only [memberTexts, List.length_append, List.length_cons] at hf
      rw [memberTexts, members, List.append_assoc, List.cons_append, quote_append, expect_self (by decide),
        Option.bind_some, scanString_texts he k _ (by omega), Option.bind_some]
      simp only [expect_self (c := ':') (by decide), Option.bind_some]
      rw [value_dumps he j hl.1 (by omega) (ends_cons (by decide) _), Option.bind_some]
      simp only [expect_ne (c := ',') (d := '}') (by decide) (by decide), expect_self (c := '}') (by decide)]
      rfl
    | (k, j) :: m :: l =>
      have hlen := length_quote_le he k
      rw [wellFormedMembers, Bool.and_eq_true] at hl
      simp only [memberTexts, List.length_append, List.length_cons] at hf
      have hrest := members_dumps he (m :: l) (by simp) hl.2 (f := f) (by omega) r
      have hshape : memberTexts e ((k, j) :: m :: l) ++ '}' :: r =
          '"' :: (k.flatMap e ++ '"' :: ':' :: (dumps e j ++ ',' :: (memberTexts e (m :: l) ++ '}' :: r))) := by
        simp [memberTexts, quote]
      rw [hshape, members, expect_self (by decide), Option.bind_some, scanString_texts he k _ (by omega),
        Option.bind_some]
      simp only [expect_self (c := ':') (by decide), Option.bind_some]
      rw [value_dumps he j hl.1 (by omega) (ends_cons (by decide) _), Option.bind_some]
      simp only [expect_self (c := ',') (by decide), hrest]
      rfl

end

theorem loads_dumps_line (he : Escapes e) {j : Json} (hj : wellFormed j = true) :
    loads (dumps e j ++ ['\n']) = some j := by
  have hends : Ends ['\n'] := ends_cons (by decide) []
  have h := value_dumps he j hj (f := 2 * (dumps e j ++ ['\n']).length + 2) (by simp; omega) hends
  rw [loads, h]
  rfl

theorem loads_dumps (he : Escapes e) {j : Json} (hj : wellFormed j = true) : loads (dumps e j) = some j := by
  have h := value_dumps he j hj (f := 2 * (dumps e j).length + 2) (by omega) (r := []) nofun
  rw [List.append_nil] at h
  rw [loads, h]
  rfl

end Writer

end JsonText
