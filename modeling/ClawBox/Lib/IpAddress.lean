import ClawBox.Lib.PyText

namespace IpAddress

open Fields

def isHexDigit (c : Char) : Bool := c.isDigit || ('a' ≤ c && c ≤ 'f') || ('A' ≤ c && c ≤ 'F')

def decimal (s : Text) : ℕ := s.foldl (fun n c => 10 * n + (c.toNat - '0'.toNat)) 0

def octet (s : Text) : Bool :=
  s ≠ [] && s.all Char.isDigit && s.length ≤ 3 && (s = ['0'] || s.head? ≠ some '0') && decimal s ≤ 255

def ipv4Address (s : Text) : Bool :=
  '/' ∉ s && (splitBy (· == '.') s).length = 4 && (splitBy (· == '.') s).all octet

def hextet (s : Text) : Bool := s ≠ [] && s.all isHexDigit && s.length ≤ 4

def ipv6Parts (s : Text) : Option (List Text) :=
  let parts := splitBy (· == ':') s
  let last := parts.getLast?.getD []
  if parts.length < 3 then none
  else if '.' ∈ last then
    if ipv4Address last then some (parts.dropLast ++ [['0'], ['0']]) else none
  else some parts

def ipv6Groups : List Text → Bool
  | [] => false
  | first :: rest =>
    match rest.dropWhile (· ≠ []) with
    | _ :: low :: lows =>
      let highs := first :: rest.takeWhile (· ≠ [])
      (highs = [[]] || highs.all hextet) && (low :: lows = [[]] || (low :: lows).all hextet) &&
        (highs.filter (· ≠ [])).length + ((low :: lows).filter (· ≠ [])).length ≤ 7
    | _ => rest.length = 7 && (first :: rest).all hextet

def ipv6Text (s : Text) : Bool := (ipv6Parts s).any fun parts => parts.length ≤ 9 && ipv6Groups parts

def ipv6Address (s : Text) : Bool :=
  '/' ∉ s && match cut '%' s with
    | none => ipv6Text s
    | some (addr, scope) => scope ≠ [] && '%' ∉ scope && ipv6Text addr

def ipAddress (s : Text) : Bool := ipv4Address s || ipv6Address s

def addressChar (c : Char) : Bool := isHexDigit c || c = '.' || c = ':'

theorem addressChar_of_isDigit {c : Char} (h : c.isDigit = true) : addressChar c = true := by
  simp [addressChar, isHexDigit, h]

theorem octet_digits {s : Text} (h : octet s = true) : ∀ c ∈ s, c.isDigit = true := by
  simp only [octet, Bool.and_eq_true, List.all_eq_true] at h
  exact h.1.1.1.2

theorem hextet_chars {s : Text} (h : hextet s = true) : ∀ c ∈ s, addressChar c = true := by
  simp only [hextet, Bool.and_eq_true, List.all_eq_true] at h
  intro c hc
  simp [addressChar, h.1.2 c hc]

theorem ipv4Address_chars {s : Text} (h : ipv4Address s = true) : ∀ c ∈ s, addressChar c = true := by
  simp only [ipv4Address, Bool.and_eq_true, List.all_eq_true] at h
  intro c hc
  by_cases hdot : c = '.'
  · simp [addressChar, hdot]
  · have hpart : ∃ part ∈ splitBy (· == '.') s, c ∈ part := mem_splitBy hc (by simpa using hdot)
    obtain ⟨part, hp, hcp⟩ := hpart
    exact addressChar_of_isDigit (octet_digits (h.2 part hp) c hcp)

theorem ipv6Groups_chars {parts : List Text} (h : ipv6Groups parts = true) :
    ∀ part ∈ parts, ∀ c ∈ part, addressChar c = true := by
  have hside : ∀ side : List Text, (side = [[]] ∨ side.all hextet = true) →
      ∀ part ∈ side, ∀ c ∈ part, addressChar c = true := by
    intro side hs part hp
    cases hs with
    | inl heq =>
      rw [heq, List.mem_singleton] at hp
      simp [hp]
    | inr hall => exact hextet_chars (List.all_eq_true.1 hall part hp)
  cases parts with
  | nil => simp
  | cons first rest =>
    rw [ipv6Groups] at h
    split at h
    · rename_i gap low lows hdrop
      simp only [Bool.and_eq_true, Bool.or_eq_true, decide_eq_true_eq] at h
      have hgap : gap = [] := by
        have hhead := List.head?_dropWhile_not (· ≠ ([] : Text)) rest
        rw [hdrop] at hhead
        simpa using hhead
      have hrest : first :: rest = (first :: rest.takeWhile (· ≠ [])) ++ gap :: low :: lows := by
        rw [← hdrop, List.cons_append, List.takeWhile_append_dropWhile]
      intro part hp
      rw [hrest, List.mem_append] at hp
      cases hp with
      | inl hhigh => exact hside _ h.1.1 part hhigh
      | inr htail =>
        cases List.mem_cons.1 htail with
        | inl heq => simp [heq, hgap]
        | inr hlow => exact hside _ h.1.2 part hlow
    · simp only [Bool.and_eq_true] at h
      exact hside _ (.inr h.2)

theorem ipv6Text_chars {s : Text} (h : ipv6Text s = true) : ∀ c ∈ s, addressChar c = true := by
  rw [ipv6Text, Option.any_eq_true] at h
  obtain ⟨parts, hparts, hgroups⟩ := h
  rw [Bool.and_eq_true] at hgroups
  have hall := ipv6Groups_chars hgroups.2
  have hne := splitBy_ne_nil (· == ':') s
  have hlast := List.getLast?_eq_some_getLast hne
  have hsplit := List.dropLast_append_getLast hne
  intro c hc
  by_cases hcolon : c = ':'
  · simp [addressChar, hcolon]
  · have hpart : ∃ part ∈ splitBy (· == ':') s, c ∈ part := mem_splitBy hc (by simpa using hcolon)
    obtain ⟨part, hp, hcp⟩ := hpart
    simp only [ipv6Parts, hlast, Option.getD_some] at hparts
    split_ifs at hparts with hlen hdot hip
    · obtain rfl := Option.some.inj hparts
      rw [← hsplit, List.mem_append, List.mem_singleton] at hp
      cases hp with
      | inl hp => exact hall part (List.mem_append_left _ hp) c hcp
      | inr hp =>
        rw [hp] at hcp
        exact ipv4Address_chars hip c hcp
    · obtain rfl := Option.some.inj hparts
      exact hall part hp c hcp

theorem cut_eq_none {sep : Char} {s : Text} (h : sep ∉ s) : cut sep s = none := by
  induction s with
  | nil => rfl
  | cons c s ih =>
    rw [List.mem_cons, not_or] at h
    rw [cut, if_neg (Ne.symm h.1), ih h.2, Option.map_none]

theorem ipAddress_chars {s : Text} (h : ipAddress s = true) (hscope : '%' ∉ s) : ∀ c ∈ s, addressChar c = true := by
  cases (Bool.or_eq_true _ _).mp h with
  | inl h4 => exact ipv4Address_chars h4
  | inr h6 =>
    rw [ipv6Address, cut_eq_none hscope, Bool.and_eq_true] at h6
    exact ipv6Text_chars h6.2

end IpAddress
