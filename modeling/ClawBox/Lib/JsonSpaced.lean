import ClawBox.Lib.Json

namespace JsonText

mutual

def dumpsSpaced (e : Char → List Char) : Json → List Char
  | .null => ['n', 'u', 'l', 'l']
  | .bool true => ['t', 'r', 'u', 'e']
  | .bool false => ['f', 'a', 'l', 's', 'e']
  | .num t => t
  | .str s => quote e s
  | .arr l => '[' :: itemsSpaced e l ++ [']']
  | .obj l => '{' :: membersSpaced e l ++ ['}']

def itemsSpaced (e : Char → List Char) : List Json → List Char
  | [] => []
  | [j] => dumpsSpaced e j
  | j :: js => dumpsSpaced e j ++ ',' :: ' ' :: itemsSpaced e js

def membersSpaced (e : Char → List Char) : List (List Char × Json) → List Char
  | [] => []
  | [(k, j)] => quote e k ++ ':' :: ' ' :: dumpsSpaced e j
  | (k, j) :: l => quote e k ++ ':' :: ' ' :: dumpsSpaced e j ++ ',' :: ' ' :: membersSpaced e l

end

section Reading

theorem skip_space (s : List Char) : skip (' ' :: s) = skip s := by
  rw [skip, List.dropWhile_cons_of_pos (by decide), skip]

theorem expect_space (c : Char) (s : List Char) : expect c (' ' :: s) = expect c s := by
  rw [expect, expect, skip_space]

theorem value_space (f : ℕ) (s : List Char) : value f (' ' :: s) = value f s := by
  cases f with
  | zero => rfl
  | succ f => rw [value, value, skip_space]

theorem items_space (f : ℕ) (s : List Char) : items f (' ' :: s) = items f s := by
  cases f with
  | zero => rfl
  | succ f => rw [items, items, value_space]

theorem members_space (f : ℕ) (s : List Char) : members f (' ' :: s) = members f s := by
  cases f with
  | zero => rfl
  | succ f => rw [members, members, expect_space]

end Reading

section Writer

variable {e : Char → List Char}

theorem dumpsSpaced_cons (e : Char → List Char) {j : Json} (hj : wellFormed j = true) :
    ∃ c t, dumpsSpaced e j = c :: t ∧ isSpace c = false ∧ c ≠ ']' := by
  cases j with
  | null => exact ⟨_, _, rfl, by decide, by decide⟩
  | bool b => cases b <;> exact ⟨_, _, rfl, by decide, by decide⟩
  | num t =>
    obtain ⟨c, t', ht, hspace, hclose⟩ := dumps_cons e hj
    exact ⟨c, t', by rw [dumpsSpaced]; rwa [dumps] at ht, hspace, hclose⟩
  | str s => exact ⟨_, _, rfl, by decide, by decide⟩
  | arr l => exact ⟨_, _, rfl, by decide, by decide⟩
  | obj l => exact ⟨_, _, rfl, by decide, by decide⟩

theorem itemsSpaced_cons (e : Char → List Char) {j : Json} {js : List Json} (hj : wellFormed j = true) :
    ∃ c t, itemsSpaced e (j :: js) = c :: t ∧ isSpace c = false ∧ c ≠ ']' := by
  obtain ⟨c, t, hd, hspace, hclose⟩ := dumpsSpaced_cons e hj
  cases js with
  | nil => exact ⟨c, t, by rw [itemsSpaced, hd], hspace, hclose⟩
  | cons j' js => exact ⟨c, _, by rw [itemsSpaced, hd]; rfl; simp, hspace, hclose⟩

theorem membersSpaced_cons (e : Char → List Char) (k : List Char) (j : Json) (l : List (List Char × Json)) :
    ∃ t, membersSpaced e ((k, j) :: l) = '"' :: t := by
  cases l with
  | nil => exact ⟨_, by rw [membersSpaced, quote_append]⟩
  | cons m l => exact ⟨_, by rw [membersSpaced, List.append_assoc, quote_append]; simp⟩

mutual

theorem value_dumpsSpaced (he : Escapes e) (j : Json) (hj : wellFormed j = true) {f : ℕ}
    (hf : 2 * (dumpsSpaced e j).length ≤ f) {r : List Char} (hr : Ends r) :
    value f (dumpsSpaced e j ++ r) = some (j, r) := by
  match j with
  | .null => exact value_dumps he .null hj hf hr
  | .bool true => exact value_dumps he (.bool true) hj hf hr
  | .bool false => exact value_dumps he (.bool false) hj hf hr
  | .num t => exact value_dumps he (.num t) hj hf hr
  | .str s => exact value_dumps he (.str s) hj hf hr
  | .arr [] => exact value_dumps he (.arr []) hj hf hr
  | .obj [] => exact value_dumps he (.obj []) hj hf hr
  | .arr (j' :: js) =>
    simp only [wellFormed] at hj
    have hj' : wellFormed j' = true := by
      rw [wellFormedItems, Bool.and_eq_true] at hj
      exact hj.1
    simp only [dumpsSpaced, List.cons_append, List.length_cons, List.length_append, List.length_nil] at hf
    obtain ⟨f, rfl⟩ : ∃ g, f = g + 1 := ⟨f - 1, by omega⟩
    obtain ⟨c, t, htexts, hspace, hclose⟩ := itemsSpaced_cons e hj'
    have hitems := items_dumpsSpaced he (j' :: js) (by simp) hj (f := f) (by omega) r
    have hshape : dumpsSpaced e (.arr (j' :: js)) ++ r = '[' :: (itemsSpaced e (j' :: js) ++ ']' :: r) := by
      simp [dumpsSpaced]
    rw [hshape, value, skip_cons (by decide)]
    simp only [head]
    rw [htexts, List.cons_append] at hitems ⊢
    rw [expect_ne hspace hclose, hitems]
    rfl
  | .obj ((k, j') :: l) =>
    simp only [wellFormed] at hj
    simp only [dumpsSpaced, List.cons_append, List.length_cons, List.length_append, List.length_nil] at hf
    obtain ⟨f, rfl⟩ : ∃ g, f = g + 1 := ⟨f - 1, by omega⟩
    obtain ⟨t, htexts⟩ := membersSpaced_cons e k j' l
    have hmembers := members_dumpsSpaced he ((k, j') :: l) (by simp) hj (f := f) (by omega) r
    have hshape : dumpsSpaced e (.obj ((k, j') :: l)) ++ r = '{' :: (membersSpaced e ((k, j') :: l) ++ '}' :: r) := by
      simp [dumpsSpaced]
    rw [hshape, value, skip_cons (by decide)]
    simp only [head]
    rw [htexts, List.cons_append] at hmembers ⊢
    rw [expect_ne (by decide) (by decide), hmembers]
    rfl

theorem items_dumpsSpaced (he : Escapes e) (l : List Json) (hne : l ≠ []) (hl : wellFormedItems l = true) {f : ℕ}
    (hf : 2 * (itemsSpaced e l).length + 1 ≤ f) (r : List Char) :
    items f (itemsSpaced e l ++ ']' :: r) = some (l, r) := by
  obtain ⟨f, rfl⟩ : ∃ g, f = g + 1 := ⟨f - 1, by omega⟩
  match l with
  | [] => exact absurd rfl hne
  | [j] =>
    rw [wellFormedItems, Bool.and_eq_true] at hl
    rw [itemsSpaced] at hf ⊢
    rw [items, value_dumpsSpaced he j hl.1 (by omega) (ends_cons (by decide) _), Option.bind_some]
    simp only [expect_ne (c := ',') (d := ']') (by decide) (by decide), expect_self (c := ']') (by decide)]
    rfl
  | j :: j' :: js =>
    rw [wellFormedItems, Bool.and_eq_true] at hl
    simp only [itemsSpaced, List.length_append, List.length_cons] at hf
    have hrest := items_dumpsSpaced he (j' :: js) (by simp) hl.2 (f := f) (by omega) r
    have hshape : itemsSpaced e (j :: j' :: js) ++ ']' :: r =
        dumpsSpaced e j ++ ',' :: ' ' :: (itemsSpaced e (j' :: js) ++ ']' :: r) := by simp [itemsSpaced]
    rw [hshape, items, value_dumpsSpaced he j hl.1 (by omega) (ends_cons (by decide) _), Option.bind_some]
    simp only [expect_self (c := ',') (by decide), items_space, hrest]
    rfl

theorem members_dumpsSpaced (he : Escapes e) (l : List (List Char × Json)) (hne : l ≠ [])
    (hl : wellFormedMembers l = true) {f : ℕ} (hf : 2 * (membersSpaced e l).length + 1 ≤ f) (r : List Char) :
    members f (membersSpaced e l ++ '}' :: r) = some (l, r) := by
  obtain ⟨f, rfl⟩ : ∃ g, f = g + 1 := ⟨f - 1, by omega⟩
  match l with
  | [] => exact absurd rfl hne
  | [(k, j)] =>
    have hlen := length_quote_le he k
    rw [wellFormedMembers, Bool.and_eq_true] at hl
    simp only [membersSpaced, List.length_append, List.length_cons] at hf
    have hshape : membersSpaced e [(k, j)] ++ '}' :: r = '"' ::
        (k.flatMap e ++ '"' :: ':' :: ' ' :: (dumpsSpaced e j ++ '}' :: r)) := by
      simp [membersSpaced, quote]
    rw [hshape, members, expect_self (by decide), Option.bind_some, scanString_texts he k _ (by omega),
      Option.bind_some]
    simp only [expect_self (c := ':') (by decide), Option.bind_some, value_space]
    rw [value_dumpsSpaced he j hl.1 (by omega) (ends_cons (by decide) _), Option.bind_some]
    simp only [expect_ne (c := ',') (d := '}') (by decide) (by decide), expect_self (c := '}') (by decide)]
    rfl
  | (k, j) :: m :: l =>
    have hlen := length_quote_le he k
    rw [wellFormedMembers, Bool.and_eq_true] at hl
    simp only [membersSpaced, List.length_append, List.length_cons] at hf
    have hrest := members_dumpsSpaced he (m :: l) (by simp) hl.2 (f := f) (by omega) r
    have hshape : membersSpaced e ((k, j) :: m :: l) ++ '}' :: r =
        '"' ::
        (k.flatMap e ++ '"' :: ':' :: ' ' ::
        (dumpsSpaced e j ++ ',' :: ' ' :: (membersSpaced e (m :: l) ++ '}' :: r))) := by
      simp [membersSpaced, quote]
    rw [hshape, members, expect_self (by decide), Option.bind_some, scanString_texts he k _ (by omega),
      Option.bind_some]
    simp only [expect_self (c := ':') (by decide), Option.bind_some, value_space]
    rw [value_dumpsSpaced he j hl.1 (by omega) (ends_cons (by decide) _), Option.bind_some]
    simp only [expect_self (c := ',') (by decide), members_space, hrest]
    rfl

end

theorem loads_dumpsSpaced (he : Escapes e) {j : Json} (hj : wellFormed j = true) :
    loads (dumpsSpaced e j) = some j := by
  have h := value_dumpsSpaced he j hj (f := 2 * (dumpsSpaced e j).length + 2) (by omega) (r := [])
    (fun c r' h => by cases h)
  rw [List.append_nil] at h
  rw [loads, h]
  rfl

end Writer

end JsonText
