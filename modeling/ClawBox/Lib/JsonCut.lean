import ClawBox.Lib.Json

namespace JsonText

section Ascii

def hexChar (d : ℕ) : Char := if d < 10 then Char.ofNat (48 + d) else Char.ofNat (87 + d)

def unit (n : ℕ) : List Char :=
  ['\\', 'u', hexChar (n / 4096 % 16), hexChar (n / 256 % 16), hexChar (n / 16 % 16), hexChar (n % 16)]

def letter (c : Char) : Option Char :=
  if c = '"' ∨ c = '\\' then some c
  else if c = '\n' then some 'n'
  else if c = '\r' then some 'r'
  else if c = '\t' then some 't'
  else if c = Char.ofNat 8 then some 'b'
  else if c = Char.ofNat 12 then some 'f'
  else none

def asciiEscape (c : Char) : List Char :=
  match letter c with
  | some l => ['\\', l]
  | none =>
    if 32 ≤ c.toNat ∧ c.toNat ≤ 126 then [c]
    else if c.toNat < 0x10000 then unit c.toNat
    else unit (0xD800 + (c.toNat - 0x10000) / 0x400) ++ unit (0xDC00 + (c.toNat - 0x10000) % 0x400)

theorem hexDigit_hexChar {d : ℕ} (hd : d < 16) : hexDigit (hexChar d) = some d := by
  revert d
  decide

theorem hex4_unit {n : ℕ} (hn : n < 0x10000) :
    hex4 (hexChar (n / 4096 % 16)) (hexChar (n / 256 % 16)) (hexChar (n / 16 % 16)) (hexChar (n % 16)) = some n := by
  have hmod : ∀ m, m % 16 < 16 := fun m => Nat.mod_lt _ (by decide)
  rw [hex4, hexDigit_hexChar (hmod _), hexDigit_hexChar (hmod _), hexDigit_hexChar (hmod _), hexDigit_hexChar (hmod _)]
  simp only [Option.some.injEq]
  omega

theorem scanString_escape (f : ℕ) {r r' : List Char} {c : Char} (h : unescape r = some (c, r')) :
    scanString (f + 1) ('\\' :: r) = push c (scanString f r') := by
  rw [scanString, if_neg (by decide), if_pos rfl, h]
  rfl

theorem unescape_unit {n : ℕ} (hn : n < 0x10000) (r : List Char) :
    unescape ((unit n).tail ++ r) = unicode n r := by
  simp only [unit, List.tail_cons, List.cons_append, List.nil_append, unescape, hex4_unit hn, Option.bind_some]

theorem unit_append (n : ℕ) (r : List Char) : unit n ++ r = '\\' :: ((unit n).tail ++ r) := rfl

theorem toNat_valid (c : Char) : c.toNat < 0xD800 ∨ 0xE000 ≤ c.toNat ∧ c.toNat < 0x110000 := by
  rcases c.valid with h | ⟨h, h'⟩
  · exact .inl h
  · refine .inr ⟨?_, h'⟩
    have : 0xDFFF < c.toNat := h
    omega

theorem letter_unescape {c l : Char} (h : letter c = some l) (r : List Char) : unescape (l :: r) = some (c, r) := by
  unfold letter at h
  split_ifs at h with h₁ h₂ h₃ h₄ h₅ h₆
  · obtain rfl := Option.some.inj h
    rcases h₁ with rfl | rfl <;> rfl
  all_goals
    obtain rfl := Option.some.inj h
    subst c
    rfl

theorem unicode_single {c : Char} (hc : c.toNat < 0x10000) (r : List Char) : unicode c.toNat r = some (c, r) := by
  have hvalid := toNat_valid c
  unfold unicode
  rw [if_neg (by omega), if_neg (by omega), Char.ofNat_toNat]

theorem unicode_pair {n m : ℕ} (hn : 0xD800 ≤ n) (hn' : n < 0xDC00) (hm : 0xDC00 ≤ m) (hm' : m < 0xE000)
    (r : List Char) :
    unicode n (unit m ++ r) = some (Char.ofNat (0x10000 + (n - 0xD800) * 0x400 + (m - 0xDC00)), r) := by
  unfold unicode
  rw [if_pos ⟨hn, hn'⟩]
  simp only [unit, List.cons_append, List.nil_append]
  rw [hex4_unit (by omega)]
  simp only
  rw [if_pos ⟨hm, hm'⟩]

theorem scanString_unit {n : ℕ} (hn : n < 0x10000) (f : ℕ) {c : Char} {r r' : List Char}
    (h : unicode n r = some (c, r')) :
    scanString (f + 1) (unit n ++ r) = push c (scanString f r') := by
  rw [unit_append]
  apply scanString_escape
  rw [unescape_unit hn, h]

theorem asciiEscape_escapes : Escapes asciiEscape := by
  intro f c r
  unfold asciiEscape
  cases hl : letter c with
  | some l => exact scanString_escape f (letter_unescape hl r)
  | none =>
    have hquote : c ≠ '"' := by
      rintro rfl
      exact absurd hl (by decide)
    have hback : c ≠ '\\' := by
      rintro rfl
      exact absurd hl (by decide)
    have hvalid := toNat_valid c
    simp only
    split_ifs with hplain hsmall
    · rw [List.singleton_append, scanString, if_neg hquote, if_neg hback, if_neg (by omega)]
    · exact scanString_unit hsmall f (unicode_single hsmall r)
    · rw [List.append_assoc]
      apply scanString_unit (by omega)
      rw [unicode_pair (by omega) (by omega) (by omega) (by omega)]
      have hnat : 0x10000 + (0xD800 + (c.toNat - 0x10000) / 0x400 - 0xD800) * 0x400 +
          (0xDC00 + (c.toNat - 0x10000) % 0x400 - 0xDC00) = c.toNat := by omega
      rw [hnat, Char.ofNat_toNat]

def printable (c : Char) : Bool := 32 ≤ c.toNat && c.toNat ≤ 126

theorem printable_hexChar {d : ℕ} (hd : d < 16) : printable (hexChar d) = true := by
  revert d
  decide

theorem printable_unit (n : ℕ) : (unit n).all printable = true := by
  have hmod : ∀ m, m % 16 < 16 := fun m => Nat.mod_lt _ (by decide)
  simp only [unit, List.all_cons, List.all_nil, printable_hexChar (hmod _)]
  decide

theorem printable_asciiEscape (c : Char) : (asciiEscape c).all printable = true := by
  unfold asciiEscape
  cases hl : letter c with
  | some l =>
    have hprintable : printable l = true := by
      unfold letter at hl
      split_ifs at hl with hself
      · obtain rfl := Option.some.inj hl
        rcases hself with rfl | rfl <;> decide
      all_goals
        obtain rfl := Option.some.inj hl
        decide
    rw [List.all_cons, List.all_cons, hprintable]
    decide
  | none =>
    simp only
    split_ifs with hplain
    · simpa [printable] using hplain
    · exact printable_unit _
    · rw [List.all_append, printable_unit, printable_unit]
      rfl

theorem printable_quote (s : List Char) : (quote asciiEscape s).all printable = true := by
  have hs : (s.flatMap asciiEscape).all printable = true := by
    induction s with
    | nil => rfl
    | cons c s ih => rw [List.flatMap_cons, List.all_append, printable_asciiEscape, ih]; rfl
  rw [quote, List.all_append, List.all_cons, hs]
  decide

theorem printable_number {t : List Char} (h : t.all numberChar = true) : t.all printable = true := by
  rw [List.all_eq_true] at h ⊢
  intro c hc
  have hn := h c hc
  simp only [numberChar, Bool.or_eq_true, decide_eq_true_eq, Char.isDigit, Bool.and_eq_true] at hn
  rcases hn with ((((⟨hlow, hhigh⟩ | rfl) | rfl) | rfl) | rfl) | rfl
  · simp only [printable, Bool.and_eq_true, decide_eq_true_eq]
    have hlow' : 48 ≤ c.toNat := hlow
    have hhigh' : c.toNat ≤ 57 := hhigh
    omega
  all_goals decide

mutual

theorem printable_dumps (j : Json) (hj : wellFormed j = true) : (dumps asciiEscape j).all printable = true := by
  match j with
  | .null | .bool true | .bool false => decide
  | .num t =>
    rw [wellFormed, Bool.and_eq_true] at hj
    exact printable_number hj.2
  | .str s => exact printable_quote s
  | .arr l =>
    rw [dumps, List.all_append, List.all_cons, printable_items l (by simpa [wellFormed] using hj)]
    decide
  | .obj l =>
    rw [dumps, List.all_append, List.all_cons, printable_members l (by simpa [wellFormed] using hj)]
    decide

theorem printable_items (l : List Json) (hl : wellFormedItems l = true) :
    (itemTexts asciiEscape l).all printable = true := by
  match l with
  | [] => rfl
  | [j] =>
    rw [wellFormedItems, Bool.and_eq_true] at hl
    exact printable_dumps j hl.1
  | j :: j' :: js =>
    rw [wellFormedItems, Bool.and_eq_true] at hl
    simp only [itemTexts, List.all_append, List.all_cons, printable_dumps j hl.1, printable_items (j' :: js) hl.2]
    decide

theorem printable_members (l : List (List Char × Json)) (hl : wellFormedMembers l = true) :
    (memberTexts asciiEscape l).all printable = true := by
  match l with
  | [] => rfl
  | [(k, j)] =>
    rw [wellFormedMembers, Bool.and_eq_true] at hl
    simp only [memberTexts, List.all_append, List.all_cons, printable_quote, printable_dumps j hl.1]
    decide
  | (k, j) :: m :: l =>
    rw [wellFormedMembers, Bool.and_eq_true] at hl
    simp only [memberTexts, List.all_append, List.all_cons, printable_quote, printable_dumps j hl.1,
      printable_members (m :: l) hl.2]
    decide

end

end Ascii

section Cut

variable {e : Char → List Char}

/-- No item and no member goes on here. -/
structure Stuck (r : List Char) : Prop where
  comma : expect ',' r = none
  colon : expect ':' r = none
  bracket : expect ']' r = none
  brace : expect '}' r = none

theorem stuck_nil : Stuck [] := ⟨rfl, rfl, rfl, rfl⟩

theorem stuck_cons {c : Char} (h : isSpace c = false) (hc : c ∉ [',', ':', ']', '}']) (r : List Char) :
    Stuck (c :: r) := by
  simp only [List.mem_cons, List.not_mem_nil, or_false, not_or] at hc
  exact ⟨expect_ne h hc.1 r, expect_ne h hc.2.1 r, expect_ne h hc.2.2.1 r, expect_ne h hc.2.2.2 r⟩

/-- Text that begins anew, and closes nothing that is open before it. -/
structure Restart (r : List Char) : Prop where
  first : r = [] ∨ ∃ x, r = '{' :: x
  string : ∀ f x, scanString f r = some x → Stuck x.2
  value : ∀ f x, value f r = some x → Stuck x.2

def Brittle (e : Char → List Char) : Prop :=
  ∀ c p q r f, e c = p ++ q → p ≠ [] → q ≠ [] → (r = [] ∨ ∃ x, r = '{' :: x) → scanString f (p ++ r) = none

/-- A value that is cut off where `r` begins leaves `r` unread, if it is read at all. -/
def Cut (e : Char → List Char) (r : List Char) (j : Json) : Prop :=
  ∀ f p q, dumps e j = p ++ q → q ≠ [] → ∀ x, value f (p ++ r) = some x → Stuck x.2

theorem restart_nil : Restart [] := by
  refine ⟨.inl rfl, ?_, ?_⟩
  · intro f x h
    cases f <;> cases h
  · intro f x h
    exact absurd rfl (skip_ne_nil_of_value h)

theorem Restart.stuck {r : List Char} (h : Restart r) : Stuck r := by
  rcases h.first with rfl | ⟨x, rfl⟩
  · exact stuck_nil
  · exact stuck_cons (by decide) (by decide) x

theorem Restart.ends {r : List Char} (h : Restart r) : Ends r := by
  rcases h.first with rfl | ⟨x, rfl⟩
  · exact nofun
  · exact ends_cons (by decide) x

theorem scanString_mono {f f' : ℕ} (hf : f ≤ f') {s : List Char} {x : List Char × List Char}
    (h : scanString f s = some x) :
    scanString f' s = some x := by
  induction hf with
  | refl => exact h
  | step _ ih => exact scanString_succ ih

theorem scanString_unique (he : Escapes e) {s r : List Char} {f : ℕ} {x : List Char × List Char}
    (h : scanString f (s.flatMap e ++ '"' :: r) = some x) : x = (s, r) := by
  have hmore := scanString_mono (Nat.le_max_left f (s.length + 1)) h
  rw [scanString_texts he s r (by omega)] at hmore
  exact (Option.some.inj hmore).symm

theorem value_unique (he : Escapes e) {j : Json} (hj : wellFormed j = true) {r : List Char} (hr : Ends r) {f : ℕ}
    {x : Json × List Char} (h : value f (dumps e j ++ r) = some x) : x = (j, r) := by
  have hmore := value_mono (Nat.le_max_left f (2 * (dumps e j).length)) h
  rw [value_dumps he j hj (Nat.le_max_right _ _) hr] at hmore
  exact (Option.some.inj hmore).symm

theorem scanString_cut (he : Escapes e) (hb : Brittle e) {r : List Char} (hr : Restart r) {s p q : List Char}
    (h : s.flatMap e = p ++ q) {f : ℕ} {x : List Char × List Char} (hx : scanString f (p ++ r) = some x) :
    Stuck x.2 := by
  induction s generalizing p q f x with
  | nil =>
    obtain ⟨rfl, -⟩ := List.append_eq_nil_iff.mp h.symm
    exact hr.string f x hx
  | cons c s ih =>
    rw [List.flatMap_cons, List.append_eq_append_iff] at h
    rcases h with ⟨t, rfl, hrest⟩ | ⟨t, hc, hq⟩
    · cases f with
      | zero => cases hx
      | succ f =>
        rw [List.append_assoc, he] at hx
        obtain ⟨y, hy, rfl⟩ := push_eq_some hx
        have hstuck := ih hrest hy
        exact hstuck
    · by_cases hp : p = []
      · subst hp
        exact hr.string f x hx
      · by_cases ht : t = []
        · subst ht
          cases f with
          | zero => cases hx
          | succ f =>
            rw [List.append_nil] at hc
            rw [← hc, he] at hx
            obtain ⟨y, hy, rfl⟩ := push_eq_some hx
            have hstuck := ih (p := []) rfl hy
            exact hstuck
        · rw [hb c p t r f hc hp ht hr.first] at hx
          cases hx

theorem quote_cut (he : Escapes e) (hb : Brittle e) {r : List Char} (hr : Restart r) {s p q : List Char}
    (h : quote e s = '"' :: p ++ q) (hq : q ≠ []) {f : ℕ} {x : List Char × List Char}
    (hx : scanString f (p ++ r) = some x) : Stuck x.2 := by
  rw [quote, List.cons_append, List.cons_append, List.cons.injEq] at h
  obtain ⟨q', c, rfl⟩ := (List.eq_nil_or_concat q).resolve_left hq
  rw [List.concat_eq_append, ← List.append_assoc] at h
  exact scanString_cut he hb hr (List.append_inj' h.2 rfl).1 hx

theorem cut_str (he : Escapes e) (hb : Brittle e) {r : List Char} (hr : Restart r) (s : List Char) :
    Cut e r (.str s) := by
  intro f p q h hq x hx
  cases p with
  | nil => exact hr.value f x hx
  | cons c p =>
    obtain rfl : c = '"' := by
      rw [dumps, quote] at h
      exact (List.cons.inj h).1.symm
    cases f with
    | zero => cases hx
    | succ f =>
      rw [List.cons_append, value, skip_cons (by decide)] at hx
      simp only [head] at hx
      obtain ⟨y, hy, rfl⟩ := Option.map_eq_some_iff.mp hx
      exact quote_cut he hb hr h hq hy

theorem append_eq_split {u v p q : List Char} (h : u ++ v = p ++ q) :
    (∃ t, u = p ++ t ∧ t ≠ []) ∨ ∃ t, p = u ++ t ∧ v = t ++ q := by
  rcases List.append_eq_append_iff.mp h with ⟨t, ht, hv⟩ | ⟨t, ht, hq⟩
  · exact .inr ⟨t, ht, hv⟩
  · by_cases hnil : t = []
    · subst hnil
      rw [List.append_nil] at ht
      exact .inr ⟨[], by rw [ht, List.append_nil], hq.symm⟩
    · exact .inl ⟨t, ht, hnil⟩

def memberTail (e : Char → List Char) : List (List Char × Json) → List Char
  | [] => ['}']
  | m :: l => ',' :: (memberTexts e (m :: l) ++ ['}'])

theorem memberTexts_tail (e : Char → List Char) (k : List Char) (j : Json) (l : List (List Char × Json)) :
    memberTexts e ((k, j) :: l) ++ ['}'] = quote e k ++ ':' :: (dumps e j ++ memberTail e l) := by
  cases l with
  | nil => simp [memberTexts, memberTail]
  | cons m l => simp [memberTexts, memberTail]

theorem members_cut (he : Escapes e) (hb : Brittle e) {r : List Char} (hr : Restart r) {l : List (List Char × Json)}
    (hl : wellFormedMembers l = true) (hcut : ∀ m ∈ l, Cut e r m.2) (hne : l ≠ []) {p q : List Char}
    (h : memberTexts e l ++ ['}'] = p ++ q) (hq : q ≠ []) (f : ℕ) : members f (p ++ r) = none := by
  induction l generalizing p q f with
  | nil => exact absurd rfl hne
  | cons m l ih =>
    obtain ⟨k, j⟩ := m
    rw [wellFormedMembers, Bool.and_eq_true] at hl
    cases f with
    | zero => rfl
    | succ f =>
      by_contra hsome
      obtain ⟨x, hx⟩ := Option.ne_none_iff_exists'.mp hsome
      rw [members] at hx
      obtain ⟨r₀, hr₀, hx₀⟩ := Option.bind_eq_some_iff.mp hx
      obtain ⟨k', hk', hx₁⟩ := Option.bind_eq_some_iff.mp hx₀
      obtain ⟨r₁, hcolon, hx₂⟩ := Option.bind_eq_some_iff.mp hx₁
      obtain ⟨j', hj', hx₃⟩ := Option.bind_eq_some_iff.mp hx₂
      clear hx hx₀ hx₁ hx₂ hsome
      rw [memberTexts_tail] at h
      cases p with
      | nil =>
        -- before the key
        rcases hr.first with rfl | ⟨y, rfl⟩ <;> cases hr₀
      | cons c p =>
        have hc : c = '"' := by
          rw [quote] at h
          exact (List.cons.inj h).1.symm
        subst hc
        rw [List.cons_append, expect_self (by decide)] at hr₀
        obtain rfl := Option.some.inj hr₀
        rcases append_eq_split h with ⟨t, hquote, ht⟩ | ⟨t, hp, hcolon'⟩
        · -- in the key
          rw [(quote_cut he hb hr hquote ht hk').colon] at hcolon
          cases hcolon
        · rw [quote, List.cons_append, List.cons_append, List.cons.injEq] at hp
          rw [hp.2] at hk'
          obtain rfl := scanString_unique he (r := t ++ r) (by simpa using hk')
          cases t with
          | nil =>
            rw [List.nil_append, hr.stuck.colon] at hcolon
            cases hcolon
          | cons c t =>
            rw [List.cons_append, List.cons.injEq] at hcolon'
            obtain ⟨rfl, htail⟩ := hcolon'
            rw [List.cons_append, expect_self (by decide)] at hcolon
            obtain rfl := Option.some.inj hcolon
            rcases append_eq_split htail with ⟨t', hdumps, ht'⟩ | ⟨t', rfl, hrest⟩
            · -- in the value
              have hstuck := hcut (k, j) List.mem_cons_self f t t' hdumps ht' j' hj'
              simp only [hstuck.comma, hstuck.brace] at hx₃
              cases hx₃
            · rw [List.append_assoc] at hj'
              cases t' with
              | nil =>
                obtain rfl := value_unique he hl.1 hr.ends hj'
                simp only [hr.stuck.comma, hr.stuck.brace] at hx₃
                cases hx₃
              | cons c t' =>
                cases l with
                | nil =>
                  obtain ⟨-, hend⟩ := List.cons.inj hrest
                  exact hq (List.append_eq_nil_iff.mp hend.symm).2
                | cons m l =>
                  rw [memberTail, List.cons_append, List.cons.injEq] at hrest
                  obtain ⟨rfl, hmore⟩ := hrest
                  rw [List.cons_append] at hj'
                  obtain rfl := value_unique he hl.1 (ends_cons (by decide) _) hj'
                  simp only [expect_self (c := ',') (by decide)] at hx₃
                  rw [ih hl.2 (fun m' hm' => hcut m' (List.mem_cons_of_mem _ hm')) (by simp) hmore hq f] at hx₃
                  cases hx₃

theorem value_cut (he : Escapes e) (hb : Brittle e) {r : List Char} (hr : Restart r) {l : List (List Char × Json)}
    (hl : wellFormedMembers l = true) (hcut : ∀ m ∈ l, Cut e r m.2) (hne : l ≠ []) {p q : List Char}
    (h : dumps e (.obj l) = p ++ q) (hp : p ≠ []) (hq : q ≠ []) (f : ℕ) : value f (p ++ r) = none := by
  cases f with
  | zero => rfl
  | succ f =>
    cases p with
    | nil => exact absurd rfl hp
    | cons c p =>
      rw [dumps, List.cons_append, List.cons_append, List.cons.injEq] at h
      obtain ⟨rfl, h⟩ := h
      rw [List.cons_append, value, skip_cons (by decide)]
      simp only [head]
      have hmembers := members_cut he hb hr hl hcut hne h hq f
      have hclose : expect '}' (p ++ r) = none := by
        cases p with
        | nil => exact hr.stuck.brace
        | cons c p =>
          obtain ⟨m, l, rfl⟩ := List.exists_cons_of_ne_nil hne
          rw [memberTexts_tail, quote] at h
          obtain ⟨rfl, -⟩ := List.cons.inj h
          exact expect_ne (by decide) (by decide) _
      rw [hclose, hmembers]
      rfl

theorem cut_obj (he : Escapes e) (hb : Brittle e) {r : List Char} (hr : Restart r) {l : List (List Char × Json)}
    (hl : wellFormedMembers l = true) (hcut : ∀ m ∈ l, Cut e r m.2) (hne : l ≠ []) : Cut e r (.obj l) := by
  intro f p q h hq x hx
  by_cases hp : p = []
  · subst hp
    exact hr.value f x hx
  · rw [value_cut he hb hr hl hcut hne h hp hq f] at hx
    cases hx

theorem Restart.append (he : Escapes e) (hb : Brittle e) {r : List Char} (hr : Restart r) {l : List (List Char × Json)}
    (hl : wellFormedMembers l = true) (hcut : ∀ m ∈ l, Cut e r m.2) (hne : l ≠ [])
    (hkey : ∀ c x, (memberTexts e l).tail = c :: x → isSpace c = false ∧ c ∉ [',', ':', ']', '}']) {p q : List Char}
    (h : dumps e (.obj l) = p ++ q) (hp : p ≠ []) : Restart (p ++ r) := by
  obtain ⟨⟨k, j⟩, l, rfl⟩ := List.exists_cons_of_ne_nil hne
  obtain ⟨c₀, texts, htexts⟩ := memberTexts_cons e k j l
  rw [htexts, List.tail_cons] at hkey
  cases p with
  | nil => exact absurd rfl hp
  | cons c p =>
    have hbrace : c = '{' := by
      rw [dumps] at h
      exact (List.cons.inj h).1.symm
    subst hbrace
    refine ⟨.inr ⟨p ++ r, rfl⟩, ?_, ?_⟩
    · intro f x hx
      cases f with
      | zero => cases hx
      | succ f =>
        rw [List.cons_append, scanString, if_neg (by decide), if_neg (by decide), if_neg (by decide)] at hx
        obtain ⟨y, hy, rfl⟩ := push_eq_some hx
        rw [dumps, htexts] at h
        cases p with
        | nil =>
          have hstuck := hr.string f y hy
          exact hstuck
        | cons c p =>
          simp only [List.cons_append, List.cons.injEq, true_and] at h
          obtain ⟨rfl, h⟩ := h
          cases f with
          | zero => cases hy
          | succ f =>
            rw [List.cons_append, scanString, if_pos rfl] at hy
            obtain rfl := Option.some.inj hy
            cases p with
            | nil => exact hr.stuck
            | cons c p =>
              simp only [List.cons_append, List.cons.injEq] at h
              obtain ⟨rfl, -⟩ := h
              obtain ⟨hspace, hmem⟩ := hkey _ _ rfl
              exact stuck_cons hspace hmem _
    · intro f x hx
      by_cases hq : q = []
      · subst hq
        rw [List.append_nil] at h
        rw [← h] at hx
        obtain rfl := value_unique he (by rw [wellFormed]; exact hl) hr.ends hx
        exact hr.stuck
      · rw [value_cut he hb hr hl hcut (by simp) h (by simp) hq f] at hx
        cases hx

end Cut

section AsciiCut

theorem hex4_brace {a b c d : Char} (h : '{' ∈ [a, b, c, d]) : hex4 a b c d = none := by
  have hbrace : hexDigit '{' = none := by decide
  simp only [List.mem_cons, List.not_mem_nil, or_false] at h
  unfold hex4
  rcases h with rfl | rfl | rfl | rfl
  · rw [hbrace]
  · rw [hbrace]
    cases hexDigit a <;> rfl
  · rw [hbrace]
    cases hexDigit a <;> cases hexDigit b <;> rfl
  · rw [hbrace]
    cases hexDigit a <;> cases hexDigit b <;> cases hexDigit c <;> rfl

theorem mem_take_brace {ds r : List Char} (hds : ds.length < 4) (hr : r = [] ∨ ∃ x, r = '{' :: x) :
    (ds ++ r).length < 4 ∨ ∃ a b c d x, ds ++ r = a :: b :: c :: d :: x ∧ '{' ∈ [a, b, c, d] := by
  by_cases hlen : (ds ++ r).length < 4
  · exact .inl hlen
  · right
    rcases hr with rfl | ⟨x, rfl⟩
    · rw [List.append_nil] at hlen
      exact absurd hds hlen
    · have hmem : '{' ∈ (ds ++ '{' :: x).take 4 := by
        rw [List.take_append]
        apply List.mem_append_right
        obtain ⟨n, hn⟩ := Nat.exists_eq_add_of_lt hds
        have hleft : 4 - ds.length = n + 1 := by omega
        rw [hleft, List.take_succ_cons]
        exact List.mem_cons_self
      match hl : ds ++ '{' :: x with
      | a :: b :: c :: d :: y =>
        rw [hl] at hmem
        exact ⟨a, b, c, d, y, rfl, hmem⟩
      | [] | [_] | [_, _] | [_, _, _] =>
        rw [hl] at hlen
        exact absurd (by simp) hlen

theorem unescape_cut {ds r : List Char} (hds : ds.length < 4) (hr : r = [] ∨ ∃ x, r = '{' :: x) :
    unescape ('u' :: (ds ++ r)) = none := by
  rcases mem_take_brace hds hr with hlen | ⟨a, b, c, d, x, hl, hmem⟩
  · match hl : ds ++ r with
    | [] | [_] | [_, _] | [_, _, _] => rfl
    | _ :: _ :: _ :: _ :: y =>
      rw [hl] at hlen
      simp only [List.length_cons] at hlen
      omega
  · rw [hl, unescape, hex4_brace hmem]
    rfl

theorem unicode_cut {n : ℕ} (hn : 0xD800 ≤ n ∧ n < 0xDC00) {ds r : List Char} (hds : ds.length < 4)
    (hr : r = [] ∨ ∃ x, r = '{' :: x) : unicode n ('\\' :: 'u' :: (ds ++ r)) = none := by
  unfold unicode
  rw [if_pos hn]
  rcases mem_take_brace hds hr with hlen | ⟨a, b, c, d, x, hl, hmem⟩
  · match hl : ds ++ r with
    | [] | [_] | [_, _] | [_, _, _] => rfl
    | _ :: _ :: _ :: _ :: y =>
      rw [hl] at hlen
      simp only [List.length_cons] at hlen
      omega
  · rw [hl]
    simp only [hex4_brace hmem]

theorem unit_prefix {n : ℕ} {p q : List Char} (h : unit n = p ++ q) (hp : p ≠ []) (hq : q ≠ []) :
    p = ['\\'] ∨ ∃ ds : List Char, ds.length < 4 ∧ p = '\\' :: 'u' :: ds := by
  have hlen := congrArg List.length h
  have hqlen : 0 < q.length := List.length_pos_iff.mpr hq
  simp only [unit, List.length_cons, List.length_nil, List.length_append] at hlen
  match p with
  | [] => exact absurd rfl hp
  | [c] =>
    obtain ⟨rfl, -⟩ := List.cons.inj h
    exact .inl rfl
  | c :: d :: ds =>
    simp only [unit, List.cons_append, List.cons.injEq] at h
    obtain ⟨rfl, rfl, -⟩ := h
    simp only [List.length_cons] at hlen
    exact .inr ⟨ds, by omega, rfl⟩

theorem scanString_cut_unit {n : ℕ} {p q r : List Char} (h : unit n = p ++ q) (hp : p ≠ []) (hq : q ≠ [])
    (hr : r = [] ∨ ∃ x, r = '{' :: x) (f : ℕ) : scanString f (p ++ r) = none := by
  have hescape : unescape r = none := by
    rcases hr with rfl | ⟨x, rfl⟩ <;> rfl
  cases f with
  | zero => rfl
  | succ f =>
    rcases unit_prefix h hp hq with rfl | ⟨ds, hds, rfl⟩
    · rw [List.singleton_append, scanString, if_neg (by decide), if_pos rfl, hescape]
      rfl
    · rw [List.cons_append, List.cons_append, scanString, if_neg (by decide), if_pos rfl, unescape_cut hds hr]
      rfl

theorem unicode_unit_cut {n m : ℕ} (hn : 0xD800 ≤ n ∧ n < 0xDC00) {p q r : List Char} (h : unit m = p ++ q)
    (hq : q ≠ []) (hr : r = [] ∨ ∃ x, r = '{' :: x) : unicode n (p ++ r) = none := by
  by_cases hp : p = []
  · subst hp
    unfold unicode
    rw [if_pos hn]
    rcases hr with rfl | ⟨x, rfl⟩ <;> rfl
  · rcases unit_prefix h hp hq with rfl | ⟨ds, hds, rfl⟩
    · unfold unicode
      rw [if_pos hn]
      rcases hr with rfl | ⟨x, rfl⟩ <;> rfl
    · exact unicode_cut hn hds hr

theorem asciiEscape_brittle : Brittle asciiEscape := by
  intro c p q r f h hp hq hr
  unfold asciiEscape at h
  cases hl : letter c with
  | some l =>
    simp only [hl] at h
    match p with
    | [] => exact absurd rfl hp
    | [d] =>
      obtain ⟨rfl, -⟩ := List.cons.inj h
      cases f with
      | zero => rfl
      | succ f =>
        rw [List.singleton_append, scanString, if_neg (by decide), if_pos rfl]
        rcases hr with rfl | ⟨x, rfl⟩ <;> rfl
    | d :: d' :: p =>
      have hlen := congrArg List.length h
      have hqlen : 0 < q.length := List.length_pos_iff.mpr hq
      simp only [List.length_cons, List.length_nil, List.length_append] at hlen
      omega
  | none =>
    simp only [hl] at h
    split_ifs at h with hplain hsmall
    · have hlen := congrArg List.length h
      have hplen : 0 < p.length := List.length_pos_iff.mpr hp
      have hqlen : 0 < q.length := List.length_pos_iff.mpr hq
      simp only [List.length_cons, List.length_nil, List.length_append] at hlen
      omega
    · exact scanString_cut_unit h hp hq hr f
    · have hvalid := toNat_valid c
      rcases append_eq_split h with ⟨t, hunit, ht⟩ | ⟨t, rfl, hunit⟩
      · exact scanString_cut_unit hunit hp ht hr f
      · cases f with
        | zero => rfl
        | succ f =>
          rw [List.append_assoc, unit_append, scanString, if_neg (by decide), if_pos rfl, unescape_unit (by omega),
            unicode_unit_cut (by omega) hunit hq hr]
          rfl

end AsciiCut

end JsonText
