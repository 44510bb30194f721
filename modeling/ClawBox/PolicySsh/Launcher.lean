import ClawBox.Lib.Quoting

namespace ClawBox.PolicySsh

open Quoting

def operators : Text := "$`;&|<>*?[]{}()~\n".toList

def shell : Rules where
  blank c := c = ' ' || c = '\t'
  refused c := c ∈ operators
  expands c := c = '$' || c = '`'
  escapes c := c = '$' || c = '`' || c = '"' || c = '\\'
  joins := true
  comments := true

def shlex : Rules where
  blank c := c = ' ' || c = '\t' || c = '\r' || c = '\n'
  refused _ := false
  expands _ := false
  escapes c := c = '"' || c = '\\'
  joins := false
  comments := false

def safe (c : Char) : Bool := c.isAlphanum || c ∈ "_@%+=:,./-".toList

def shlexQuote (s : Text) : Text :=
  if s = [] then [apostrophe, apostrophe]
  else if s.all safe then s
  else apostrophe ::
    s.flatMap (fun c => if c = apostrophe then [apostrophe, '"', apostrophe, '"', apostrophe] else [c]) ++
    [apostrophe]

def literal : Option Char → Bool → Text → Bool
  | _, _, [] => true
  | quote, true, _ :: rest => literal quote false rest
  | quote, false, char :: rest =>
    if char = '\\' ∧ quote ≠ some apostrophe then literal quote true rest
    else
      match quote with
      | some q =>
        if char = q then literal none false rest
        else if q = '"' ∧ (char = '$' ∨ char = '`') then false
        else literal quote false rest
      | none =>
        if char = apostrophe ∨ char = '"' then literal (some char) false rest
        else if char ∈ operators then false
        else literal none false rest

def allowedNames : List Text :=
  ["PATH".toList, "HOME".toList, "GIT_CONFIG_GLOBAL".toList, "CLAWTUNE_EXECUTION_ID".toList, "OPENCLAW_SHELL".toList]

def allowed (word : Text) : Bool := '=' ∈ word && allowedNames.contains (word.takeWhile (· ≠ '='))

def assignmentsOf (words : List Text) : List Text := (words.drop 1).take (words.length - 4)

def launches (executionId : Text) (words : List Text) : Bool :=
  5 ≤ words.length && words.head? = some "env".toList &&
    (words.drop (words.length - 3)).take 2 = ["/bin/sh".toList, "-c".toList] &&
    assignmentsOf words ≠ [] && (assignmentsOf words).all allowed &&
    (assignmentsOf words).contains ("CLAWTUNE_EXECUTION_ID=".toList ++ executionId)

def collectorVisibleLauncher (command executionId : Text) : Text :=
  if literal none false command then
    match words shlex command with
    | none => command
    | some words =>
      if launches executionId words then
        "export ".toList ++ [' '].intercalate ((assignmentsOf words).map shlexQuote) ++ '\n' :: words.getLast?.getD []
      else command
  else command

def Preserves (command result : Text) : Prop :=
  result = command ∨ ∃ assignments payload exports, assignments ≠ [] ∧ (∀ a ∈ assignments, allowed a = true) ∧
    words shell command = some ("env".toList :: assignments ++ ["/bin/sh".toList, "-c".toList, payload]) ∧
    result = exports ++ '\n' :: payload ∧ words shell exports = some ("export".toList :: assignments)

/-- From a mode on, and from the start of a word or not, nothing is in the text that `shlex` and the shell read apart.
-/
def agrees : Mode → Bool → Text → Bool
  | _, _, [] => true
  | .plain, start, c :: cs =>
    if c = '\\' then agrees .escape start cs
    else if c = apostrophe then agrees .single false cs
    else if c = '"' then agrees .double false cs
    else if c = ' ' ∨ c = '\t' then agrees .plain true cs
    else c ≠ '\r' && !(c = '#' && start) && agrees .plain false cs
  | .single, start, c :: cs => if c = apostrophe then agrees .plain start cs else agrees .single false cs
  | .double, start, c :: cs =>
    if c = '"' then agrees .plain start cs
    else if c = '\\' then agrees .doubleEscape start cs
    else agrees .double false cs
  | .escape, _, c :: cs => c ≠ '\n' && agrees .plain false cs
  | .doubleEscape, _, c :: cs => c ≠ '\n' && c ≠ '$' && c ≠ '`' && agrees .double false cs
  | .comment, _, _ :: _ => true

section Readings

inductive Matches : Mode → Option Char → Bool → Prop
  | plain : Matches .plain none false
  | single : Matches .single (some apostrophe) false
  | double : Matches .double (some '"') false
  | escape : Matches .escape none true
  | doubleEscape : Matches .doubleEscape (some '"') true

theorem agrees_plain {start : Bool} {c : Char} {cs : Text} (h₁ : c ≠ '\\') (h₂ : c ≠ apostrophe) (h₃ : c ≠ '"')
    (h₄ : ¬ (c = ' ' ∨ c = '\t')) :
    agrees .plain start (c :: cs) = (c ≠ '\r' && !(c = '#' && start) && agrees .plain false cs) := by
  rw [agrees, if_neg h₁, if_neg h₂, if_neg h₃, if_neg h₄]

theorem literal_plain {c : Char} {cs : Text} (h₁ : c ≠ '\\') (h₂ : c ≠ apostrophe) (h₃ : c ≠ '"')
    (h : literal none false (c :: cs) = true) : c ∉ operators ∧ literal none false cs = true := by
  rw [literal, if_neg fun h => h₁ h.1, if_neg (by simp [h₂, h₃])] at h
  split_ifs at h with hop
  exact ⟨hop, h⟩

theorem literal_single {c : Char} {cs : Text} (h : c ≠ apostrophe) :
    literal (some apostrophe) false (c :: cs) = literal (some apostrophe) false cs := by
  have hquote : ¬ (apostrophe = '"' ∧ (c = '$' ∨ c = '`')) := fun h => absurd h.1 (by decide)
  rw [literal, if_neg fun h => h.2 rfl, if_neg h, if_neg hquote]

theorem literal_double {c : Char} {cs : Text} (h₁ : c ≠ '"') (h₂ : c ≠ '\\')
    (h : literal (some '"') false (c :: cs) = true) :
    shell.expands c = false ∧ literal (some '"') false cs = true := by
  rw [literal, if_neg fun h => h₂ h.1] at h
  simp only at h
  rw [if_neg h₁] at h
  split_ifs at h with hexp
  exact ⟨by simpa [shell] using hexp, h⟩

theorem ne_newline {c : Char} (h : c ∉ operators) : c ≠ '\n' := by
  rintro rfl
  exact h (by decide)

theorem step_plain {s : State} {c : Char} (hs : s.mode = .plain) (h₁ : c ≠ '\\') (h₂ : c ≠ apostrophe) (h₃ : c ≠ '"')
    (h₄ : ¬ (c = ' ' ∨ c = '\t')) (hop : c ∉ operators) :
    step shell s c = (if c = '#' ∧ s.word = none then some (s.turn .comment) else some (s.put .plain [c])) ∧
      step shlex s c = (if c = '\r' then some s.close else some (s.put .plain [c])) := by
  have hnl := ne_newline hop
  have hblank : shell.blank c = false := by simpa [shell] using h₄
  have hshlex : shlex.blank c = decide (c = '\r') := by
    rw [not_or] at h₄
    simp [shlex, h₄, hnl]
  have hrefused : shell.refused c = false := by simpa [shell] using hop
  constructor
  · simp only [step, hs, h₁, h₂, h₃, hblank, hrefused, if_false, Bool.false_eq_true]
    simp [shell]
  · simp only [step, hs, h₁, h₂, h₃, hshlex, if_false]
    simp [shlex]

theorem step_agrees {s : State} {q : Option Char} {e : Bool} {c : Char} {cs : Text} (hm : Matches s.mode q e)
    (hl : literal q e (c :: cs) = true) (ha : agrees s.mode (s.word = none) (c :: cs) = true) :
    ∃ t q' e', step shell s c = some t ∧ step shlex s c = some t ∧ Matches t.mode q' e' ∧ literal q' e' cs = true ∧
      agrees t.mode (t.word = none) cs = true := by
  generalize hmode : s.mode = m at hm ha
  cases hm with
  | plain =>
    by_cases h₁ : c = '\\'
    · subst h₁
      exact ⟨s.turn .escape, none, true, by simp [step, hmode], by simp [step, hmode], .escape, hl, ha⟩
    · by_cases h₂ : c = apostrophe
      · subst h₂
        exact ⟨s.put .single [], some apostrophe,
          false, by simp [step, hmode, apostrophe], by simp [step, hmode, apostrophe], .single, hl, ha⟩
      · by_cases h₃ : c = '"'
        · subst h₃
          exact ⟨s.put .double [], some '"',
            false, by simp [step, hmode, apostrophe], by simp [step, hmode, apostrophe], .double, hl, ha⟩
        · obtain ⟨hop, hl'⟩ := literal_plain h₁ h₂ h₃ hl
          by_cases h₄ : c = ' ' ∨ c = '\t'
          · rw [agrees, if_neg h₁, if_neg h₂, if_neg h₃, if_pos h₄] at ha
            have hshell : shell.blank c = true := by simpa [shell] using h₄
            have hshlex : shlex.blank c = true := by
              cases h₄ with
              | inl h => simp [shlex, h]
              | inr h => simp [shlex, h]
            refine ⟨s.close, none,
              false, by simp [step, hmode, h₁, h₂, h₃, hshell], by simp [step, hmode, h₁, h₂, h₃, hshlex], ?_, hl', ?_⟩
            · rw [State.close_mode, hmode]
              exact .plain
            · rw [State.close_mode, hmode]
              exact ha
          · rw [agrees_plain h₁ h₂ h₃ h₄] at ha
            simp only [Bool.and_eq_true, decide_eq_true_eq, Bool.not_eq_true', Bool.and_eq_false_iff,
              decide_eq_false_iff_not] at ha
            obtain ⟨⟨hr, hhash⟩, ha'⟩ := ha
            obtain ⟨hshell, hshlex⟩ := step_plain hmode h₁ h₂ h₃ h₄ hop
            rw [if_neg (by tauto)] at hshell
            rw [if_neg hr] at hshlex
            exact ⟨s.put .plain [c], none, false, hshell, hshlex, .plain, hl', ha'⟩
  | single =>
    by_cases h : c = apostrophe
    · subst h
      exact ⟨s.turn .plain, none, false, by simp [step, hmode], by simp [step, hmode], .plain, hl, ha⟩
    · refine ⟨s.put .single [c], some apostrophe, false, by simp [step, hmode, h], by simp [step, hmode, h], .single,
        ?_, ?_⟩
      · rwa [literal_single h] at hl
      · simpa [agrees, h] using ha
  | double =>
    by_cases h₁ : c = '"'
    · subst h₁
      exact ⟨s.turn .plain, none, false, by simp [step, hmode], by simp [step, hmode], .plain, hl, ha⟩
    · by_cases h₂ : c = '\\'
      · subst h₂
        exact ⟨s.turn .doubleEscape, some '"', true, by simp [step, hmode], by simp [step, hmode], .doubleEscape, hl,
          ha⟩
      · obtain ⟨hexpands, hl'⟩ := literal_double h₁ h₂ hl
        refine ⟨s.put .double [c], some '"', false, ?_, by simp [step, hmode, h₁, h₂, shlex], .double, hl', ?_⟩
        · simp [step, hmode, h₁, h₂, hexpands]
        · simpa [agrees, h₁, h₂] using ha
  | escape =>
    rw [agrees, Bool.and_eq_true, decide_eq_true_eq] at ha
    exact ⟨s.put .plain [c], none, false, by simp [step, hmode, ha.1], by simp [step, hmode, shlex], .plain, hl, ha.2⟩
  | doubleEscape =>
    simp only [agrees, Bool.and_eq_true, decide_eq_true_eq] at ha
    obtain ⟨⟨⟨hnl, hdollar⟩, htick⟩, ha'⟩ := ha
    by_cases h : c = '"' ∨ c = '\\'
    · refine ⟨s.put .double [c], some '"', false, ?_, ?_, .double, hl, ha'⟩
      · simp [step, hmode, hnl, shell, hdollar, htick, h]
      · simp [step, hmode, shlex, h]
    · refine ⟨s.put .double ['\\', c], some '"', false, ?_, ?_, .double, hl, ha'⟩
      · simp [step, hmode, hnl, shell, hdollar, htick, h]
      · simp [step, hmode, shlex, h]

theorem run_agrees {s : State} {q : Option Char} {e : Bool} {cs : Text} (hm : Matches s.mode q e)
    (hl : literal q e cs = true) (ha : agrees s.mode (s.word = none) cs = true) : run shell s cs = run shlex s cs := by
  induction cs generalizing s q e with
  | nil => rfl
  | cons c cs ih =>
    obtain ⟨t, q', e', hshell, hshlex, hm', hl', ha'⟩ := step_agrees hm hl ha
    rw [run, run, hshell, hshlex]
    exact ih hm' hl' ha'

structure Follows (b : Bool) (s t : State) : Prop where
  hash : s.text.count '#' = t.text.count '#'
  carriage : t.text.count '\r' ≤ s.text.count '\r'
  newline : s.text.count '\n' ≤ t.text.count '\n'
  backslash : s.text.count '\\' ≤ t.text.count '\\'
  strict : b = true → t.text.count '\r' < s.text.count '\r' ∨ s.text.count '\n' < t.text.count '\n' ∨
    s.text.count '\\' < t.text.count '\\'

theorem Follows.append {b : Bool} {s t s' t' : State} (h : Follows b s t) (x : Text) (hs : s'.text = s.text ++ x)
    (ht : t'.text = t.text ++ x) : Follows b s' t' := by
  obtain ⟨hhash, hcr, hnl, hbs, hstrict⟩ := h
  constructor
  · rw [hs, ht, List.count_append, List.count_append, hhash]
  · rw [hs, ht, List.count_append, List.count_append]
    omega
  · rw [hs, ht, List.count_append, List.count_append]
    omega
  · rw [hs, ht, List.count_append, List.count_append]
    omega
  · intro hb
    have := hstrict hb
    simp only [hs, ht, List.count_append]
    omega

theorem Follows.parted {b : Bool} {s t s' t' : State} (h : Follows b s t) (x y : Text) (hs : s'.text = s.text ++ x)
    (ht : t'.text = t.text ++ y) (hhash : x.count '#' = y.count '#') (hcr : y.count '\r' ≤ x.count '\r')
    (hnl : x.count '\n' ≤ y.count '\n') (hbs : x.count '\\' ≤ y.count '\\')
    (hstrict : y.count '\r' < x.count '\r' ∨ x.count '\n' < y.count '\n' ∨ x.count '\\' < y.count '\\') :
    Follows true s' t' := by
  obtain ⟨hhash', hcr', hnl', hbs', -⟩ := h
  constructor
  · rw [hs, ht, List.count_append, List.count_append, hhash, hhash']
  · rw [hs, ht, List.count_append, List.count_append]
    omega
  · rw [hs, ht, List.count_append, List.count_append]
    omega
  · rw [hs, ht, List.count_append, List.count_append]
    omega
  · intro _
    simp only [hs, ht, List.count_append]
    omega

inductive Abreast (b : Bool) (s t : State) (cs : Text) : Prop
  | comment (hs : s.mode = .comment) (h : s.text.count '#' < t.text.count '#')
  | reading (q : Option Char) (e : Bool) (hm : Matches s.mode q e) (ht : t.mode = s.mode) (hl : literal q e cs = true)
      (h : Follows b s t) (ha : b = false → agrees s.mode (s.word = none) cs = false)

theorem count_step {R : Rules} {s t : State} {c : Char} (h : step R s c = some t) (d : Char) :
    s.text.count d ≤ t.text.count d := by
  unfold step at h
  split at h <;> split_ifs at h <;> obtain rfl := Option.some.inj h <;> simp

theorem step_abreast {b : Bool} {s t s' t' : State} {c : Char} {cs : Text} (h : Abreast b s t (c :: cs))
    (hs : step shell s c = some s') (ht : step shlex t c = some t') : ∃ b', Abreast b' s' t' cs := by
  cases h with
  | comment hmode hhash =>
    have hsame : s' = s := by
      simp only [step, hmode] at hs
      split_ifs at hs
      exact (Option.some.inj hs).symm
    rw [hsame]
    exact ⟨b, .comment hmode (hhash.trans_le (count_step ht '#'))⟩
  | reading q e hm hmt hl hf ha =>
    generalize hmode : s.mode = m at hm hmt ha
    cases hm with
    | plain =>
      by_cases h₁ : c = '\\'
      · subst h₁
        obtain rfl : s' = s.turn .escape := by simpa [step, hmode, eq_comm] using hs
        obtain rfl : t' = t.turn .escape := by simpa [step, hmt, eq_comm] using ht
        exact ⟨b, .reading none true .escape rfl hl (hf.append [] (by simp) (by simp)) ha⟩
      · by_cases h₂ : c = apostrophe
        · subst h₂
          obtain rfl : s' = s.put .single [] := by simpa [step, hmode, apostrophe, eq_comm] using hs
          obtain rfl : t' = t.put .single [] := by simpa [step, hmt, apostrophe, eq_comm] using ht
          exact ⟨b, .reading (some apostrophe) false .single rfl hl (hf.append [] (by simp) (by simp)) ha⟩
        · by_cases h₃ : c = '"'
          · subst h₃
            obtain rfl : s' = s.put .double [] := by simpa [step, hmode, apostrophe, eq_comm] using hs
            obtain rfl : t' = t.put .double [] := by simpa [step, hmt, apostrophe, eq_comm] using ht
            exact ⟨b, .reading (some '"') false .double rfl hl (hf.append [] (by simp) (by simp)) ha⟩
          · obtain ⟨hop, hl'⟩ := literal_plain h₁ h₂ h₃ hl
            by_cases h₄ : c = ' ' ∨ c = '\t'
            · rw [agrees, if_neg h₁, if_neg h₂, if_neg h₃, if_pos h₄] at ha
              have hshell : shell.blank c = true := by simpa [shell] using h₄
              have hshlex : shlex.blank c = true := by
                cases h₄ with
                | inl h => simp [shlex, h]
                | inr h => simp [shlex, h]
              obtain rfl : s' = s.close := by simpa [step, hmode, h₁, h₂, h₃, hshell, eq_comm] using hs
              obtain rfl : t' = t.close := by simpa [step, hmt, h₁, h₂, h₃, hshlex, eq_comm] using ht
              refine ⟨b, .reading none false ?_ (by simp [hmode, hmt]) hl' (hf.append [] (by simp) (by simp)) ?_⟩
              · rw [State.close_mode, hmode]
                exact .plain
              · rw [State.close_mode, hmode]
                exact ha
            · rw [agrees_plain h₁ h₂ h₃ h₄] at ha
              rw [(step_plain hmode h₁ h₂ h₃ h₄ hop).1] at hs
              rw [(step_plain hmt h₁ h₂ h₃ h₄ hop).2] at ht
              split_ifs at hs ht with hcomment hr hr
              · exact absurd (hcomment.1.symm.trans hr) (by decide)
              · obtain rfl := Option.some.inj hs
                obtain rfl := Option.some.inj ht
                refine ⟨b, .comment rfl ?_⟩
                rw [State.text_turn, State.text_put, List.count_append, hcomment.1, hf.hash]
                simp
              · obtain rfl := Option.some.inj hs
                obtain rfl := Option.some.inj ht
                subst hr
                refine ⟨true, .reading none false .plain ?_ hl' (hf.parted ['\r'] [] ?_ ?_ ?_ ?_ ?_ ?_ ?_)
                  (fun hb => by cases hb)⟩
                all_goals simp [hmt]
              · obtain rfl := Option.some.inj hs
                obtain rfl := Option.some.inj ht
                refine ⟨b, .reading none false .plain rfl hl' (hf.append [c] (by simp) (by simp)) ?_⟩
                intro hb
                have hagrees := ha hb
                have hhash : (c = '#' && decide (s.word = none)) = false := by simpa using hcomment
                simpa [hr, hhash] using hagrees
    | single =>
      by_cases h : c = apostrophe
      · subst h
        obtain rfl : s' = s.turn .plain := by simpa [step, hmode, eq_comm] using hs
        obtain rfl : t' = t.turn .plain := by simpa [step, hmt, eq_comm] using ht
        exact ⟨b, .reading none false .plain rfl hl (hf.append [] (by simp) (by simp)) ha⟩
      · obtain rfl : s' = s.put .single [c] := by simpa [step, hmode, h, eq_comm] using hs
        obtain rfl : t' = t.put .single [c] := by simpa [step, hmt, h, eq_comm] using ht
        refine ⟨b, .reading (some apostrophe) false .single rfl ?_ (hf.append [c] (by simp) (by simp)) ?_⟩
        · rwa [literal_single h] at hl
        · simpa [agrees, h] using ha
    | double =>
      by_cases h₁ : c = '"'
      · subst h₁
        obtain rfl : s' = s.turn .plain := by simpa [step, hmode, eq_comm] using hs
        obtain rfl : t' = t.turn .plain := by simpa [step, hmt, eq_comm] using ht
        exact ⟨b, .reading none false .plain rfl hl (hf.append [] (by simp) (by simp)) ha⟩
      · by_cases h₂ : c = '\\'
        · subst h₂
          obtain rfl : s' = s.turn .doubleEscape := by simpa [step, hmode, eq_comm] using hs
          obtain rfl : t' = t.turn .doubleEscape := by simpa [step, hmt, eq_comm] using ht
          exact ⟨b, .reading (some '"') true .doubleEscape rfl hl (hf.append [] (by simp) (by simp)) ha⟩
        · obtain ⟨hexpands, hl'⟩ := literal_double h₁ h₂ hl
          obtain rfl : s' = s.put .double [c] := by simpa [step, hmode, h₁, h₂, hexpands, eq_comm] using hs
          obtain rfl : t' = t.put .double [c] := by simpa [step, hmt, h₁, h₂, shlex, eq_comm] using ht
          refine ⟨b, .reading (some '"') false .double rfl hl' (hf.append [c] (by simp) (by simp)) ?_⟩
          simpa [agrees, h₁, h₂] using ha
    | escape =>
      have hput : step shlex t c = some (t.put .plain [c]) := by simp [step, hmt, shlex]
      obtain rfl := Option.some.inj (ht.symm.trans hput)
      by_cases hnl : c = '\n'
      · subst hnl
        have hturn : step shell s '\n' = some (s.turn .plain) := by simp [step, hmode, shell]
        obtain rfl := Option.some.inj (hs.symm.trans hturn)
        refine ⟨true, .reading none false .plain rfl hl (hf.parted [] ['\n'] ?_ ?_ ?_ ?_ ?_ ?_ ?_)
          (fun hb => by cases hb)⟩
        all_goals simp
      · have hkeep : step shell s c = some (s.put .plain [c]) := by simp [step, hmode, hnl]
        obtain rfl := Option.some.inj (hs.symm.trans hkeep)
        refine ⟨b, .reading none false .plain rfl hl (hf.append [c] (by simp) (by simp)) ?_⟩
        simpa [agrees, hnl] using ha
    | doubleEscape =>
      by_cases hnl : c = '\n'
      · subst hnl
        obtain rfl : s' = s.turn .double := by simpa [step, hmode, shell, eq_comm] using hs
        obtain rfl : t' = t.put .double ['\\', '\n'] := by simpa [step, hmt, shlex, eq_comm] using ht
        refine ⟨true, .reading (some '"') false .double rfl hl (hf.parted [] ['\\', '\n'] ?_ ?_ ?_ ?_ ?_ ?_ ?_)
          (fun hb => by cases hb)⟩
        all_goals simp
      · by_cases hexp : c = '$' ∨ c = '`'
        · obtain rfl : s' = s.put .double [c] := by
            cases hexp with
            | inl h => simpa [step, hmode, shell, h, eq_comm] using hs
            | inr h => simpa [step, hmode, shell, h, eq_comm] using hs
          have hplain : c ≠ '"' ∧ c ≠ '\\' := by
            cases hexp with
            | inl h => simp [h]
            | inr h => simp [h]
          obtain rfl : t' = t.put .double ['\\', c] := by simpa [step, hmt, shlex, hplain, eq_comm] using ht
          refine ⟨true, .reading (some '"') false .double rfl hl (hf.parted [c] ['\\', c] ?_ ?_ ?_ ?_ ?_ ?_ ?_)
            (fun hb => by cases hb)⟩
          all_goals simp [List.count_cons]
        · rw [not_or] at hexp
          by_cases h : c = '"' ∨ c = '\\'
          · have hputs : step shell s c = some (s.put .double [c]) := by simp [step, hmode, hnl, shell, hexp, h]
            have hputt : step shlex t c = some (t.put .double [c]) := by simp [step, hmt, shlex, h]
            obtain rfl := Option.some.inj (hs.symm.trans hputs)
            obtain rfl := Option.some.inj (ht.symm.trans hputt)
            refine ⟨b, .reading (some '"') false .double rfl hl (hf.append [c] (by simp) (by simp)) ?_⟩
            simpa [agrees, hnl, hexp] using ha
          · have hputs : step shell s c = some (s.put .double ['\\', c]) := by simp [step, hmode, hnl, shell, hexp, h]
            have hputt : step shlex t c = some (t.put .double ['\\', c]) := by simp [step, hmt, shlex, h]
            obtain rfl := Option.some.inj (hs.symm.trans hputs)
            obtain rfl := Option.some.inj (ht.symm.trans hputt)
            refine ⟨b, .reading (some '"') false .double rfl hl (hf.append ['\\', c] (by simp) (by simp)) ?_⟩
            simpa [agrees, hnl, hexp] using ha

theorem run_abreast {b : Bool} {s t s' t' : State} {cs : Text} (h : Abreast b s t cs) (hs : run shell s cs = some s')
    (ht : run shlex t cs = some t') : ∃ b', Abreast b' s' t' [] := by
  induction cs generalizing b s t with
  | nil =>
    obtain rfl := Option.some.inj hs
    obtain rfl := Option.some.inj ht
    exact ⟨b, h⟩
  | cons c cs ih =>
    obtain ⟨u, hu, hus⟩ := Option.bind_eq_some_iff.1 hs
    obtain ⟨v, hv, hvt⟩ := Option.bind_eq_some_iff.1 ht
    obtain ⟨b', hnext⟩ := step_abreast h hu hv
    exact ih hnext hus hvt

theorem words_iff {command : Text} {ws : List Text} (hl : literal none false command = true)
    (h : words shlex command = some ws) : words shell command = some ws ↔ agrees .plain true command = true := by
  constructor
  · intro hshell
    by_contra hne
    rw [Bool.not_eq_true] at hne
    obtain ⟨s, hs, hfs⟩ := Option.bind_eq_some_iff.1 hshell
    obtain ⟨t, ht, hft⟩ := Option.bind_eq_some_iff.1 h
    have hsame : s.text = t.text := (text_of_finish hfs).symm.trans (text_of_finish hft)
    have hstart : Abreast false {} {} command :=
      .reading none false .plain rfl hl ⟨rfl, le_rfl, le_rfl, le_rfl, fun hb => by cases hb⟩ fun _ => hne
    obtain ⟨b, hend⟩ := run_abreast hstart hs ht
    cases hend with
    | comment _ hhash =>
      rw [hsame] at hhash
      exact lt_irrefl _ hhash
    | reading q e hm ht hl hf ha =>
      cases b with
      | true =>
        have := hf.strict rfl
        rw [hsame] at this
        omega
      | false =>
        have := ha rfl
        rw [agrees] at this
        cases this
  · intro ha
    rw [words, run_agrees (s := {}) .plain hl (by simpa using ha)]
    exact h

end Readings

section Exports

theorem safe_ordinary {c : Char} (h : safe c = true) :
    c ≠ '\\' ∧ c ≠ apostrophe ∧ c ≠ '"' ∧ ¬ (c = ' ' ∨ c = '\t') ∧ c ∉ operators ∧ c ≠ '#' := by
  have hne : ∀ d, safe d = false → c ≠ d := by
    rintro d hd rfl
    rw [h] at hd
    cases hd
  have hops : operators.all (fun d => !safe d) = true := by decide
  refine ⟨hne _ (by decide), hne _ (by decide), hne _ (by decide), ?_, ?_, hne _ (by decide)⟩
  · rw [not_or]
    exact ⟨hne _ (by decide), hne _ (by decide)⟩
  · intro hc
    exact hne c (by simpa using List.all_eq_true.1 hops c hc) rfl

theorem step_safe {s : State} {c : Char} (hs : s.mode = .plain) (h : safe c = true) :
    step shell s c = some (s.put .plain [c]) := by
  obtain ⟨h₁, h₂, h₃, h₄, hop, hhash⟩ := safe_ordinary h
  rw [(step_plain hs h₁ h₂ h₃ h₄ hop).1, if_neg fun h => hhash h.1]

theorem run_safe {done : List Text} {w cs : Text} (h : cs.all safe = true) :
    run shell ⟨.plain, done, some w⟩ cs = some ⟨.plain, done, some (w ++ cs)⟩ := by
  induction cs generalizing w with
  | nil => simp [run]
  | cons c cs ih =>
    rw [List.all_cons, Bool.and_eq_true] at h
    rw [run, step_safe rfl h.1]
    simp only [Option.bind_some, State.put, Option.getD_some]
    rw [ih h.2, List.append_assoc, List.singleton_append]

theorem run_single {done : List Text} {w : Text} (cs : Text) :
    run shell ⟨.single, done, some w⟩ (cs.flatMap (fun c =>
      if c = apostrophe then [apostrophe, '"', apostrophe, '"', apostrophe] else [c]) ++ [apostrophe]) =
      some ⟨.plain, done, some (w ++ cs)⟩ := by
  induction cs generalizing w with
  | nil => simp [run, step, State.turn]
  | cons c cs ih =>
    rw [List.flatMap_cons, List.append_assoc, run_append]
    by_cases hc : c = apostrophe
    · rw [if_pos hc]
      have hspliced : run shell ⟨.single, done, some w⟩ [apostrophe, '"', apostrophe, '"', apostrophe] =
          some ⟨.single, done, some (w ++ [apostrophe])⟩ := by
        simp [run, step, State.turn, State.put, apostrophe, shell]
      rw [hspliced, Option.bind_some, ih, hc, List.append_assoc, List.singleton_append]
    · rw [if_neg hc]
      have hput : run shell ⟨.single, done, some w⟩ [c] = some ⟨.single, done, some (w ++ [c])⟩ := by
        simp [run, step, hc, State.put]
      rw [hput, Option.bind_some, ih, List.append_assoc, List.singleton_append]

theorem run_shlexQuote (done : List Text) (a : Text) :
    run shell ⟨.plain, done, none⟩ (shlexQuote a) = some ⟨.plain, done, some a⟩ := by
  unfold shlexQuote
  split_ifs with hnil hsafe
  · subst hnil
    rfl
  · obtain ⟨c, cs, rfl⟩ := List.exists_cons_of_ne_nil hnil
    rw [List.all_cons, Bool.and_eq_true] at hsafe
    rw [run, step_safe rfl hsafe.1]
    exact run_safe hsafe.2
  · rw [List.cons_append, run]
    exact run_single a

theorem run_assignments (done : List Text) (w : Text) (l : List Text) :
    ∃ t, run shell ⟨.plain, done, some w⟩ (l.flatMap fun a => ' ' :: shlexQuote a) = some t ∧ t.mode = .plain ∧
      t.close.done = done ++ w :: l := by
  induction l generalizing done w with
  | nil => exact ⟨_, rfl, rfl, rfl⟩
  | cons a l ih =>
    obtain ⟨t, ht, hmode, hdone⟩ := ih (done ++ [w]) a
    have hblank : step shell ⟨.plain, done, some w⟩ ' ' = some ⟨.plain, done ++ [w], none⟩ := rfl
    refine ⟨t, ?_, hmode, by rw [hdone, List.append_assoc, List.singleton_append]⟩
    rw [List.flatMap_cons, List.cons_append, run, hblank, Option.bind_some, run_append, run_shlexQuote,
      Option.bind_some, ht]

theorem intercalate_blank (x : Text) (xs : List Text) : [' '].intercalate (x :: xs) = x ++ xs.flatMap (' ' :: ·) := by
  induction xs generalizing x with
  | nil => simp [List.intercalate]
  | cons y ys ih =>
    have hcons : [' '].intercalate (x :: y :: ys) = x ++ ' ' :: [' '].intercalate (y :: ys) := by
      simp [List.intercalate]
    rw [hcons, ih, List.flatMap_cons, List.cons_append]

theorem words_exports {l : List Text} (hne : l ≠ []) :
    words shell ("export ".toList ++ [' '].intercalate (l.map shlexQuote)) = some ("export".toList :: l) := by
  obtain ⟨a, l, rfl⟩ := List.exists_cons_of_ne_nil hne
  have htext : "export ".toList ++ [' '].intercalate ((a :: l).map shlexQuote) =
      "export".toList ++ (a :: l).flatMap fun a => ' ' :: shlexQuote a := by
    rw [List.map_cons, intercalate_blank, List.flatMap_map, List.flatMap_cons]
    rfl
  have hexport : run shell {} "export".toList = some ⟨.plain, [], some "export".toList⟩ := rfl
  obtain ⟨t, ht, hmode, hdone⟩ := run_assignments [] "export".toList (a :: l)
  rw [words, htext, run_append, hexport, Option.bind_some, ht, Option.bind_some, finish, if_pos (.inl hmode), hdone,
    List.nil_append]

theorem launches_spec {executionId : Text} {ws : List Text} (h : launches executionId ws = true) :
    ∃ payload, ws = "env".toList :: assignmentsOf ws ++ ["/bin/sh".toList, "-c".toList, payload] ∧
      ws.getLast?.getD [] = payload ∧ assignmentsOf ws ≠ [] ∧ ∀ a ∈ assignmentsOf ws, allowed a = true := by
  simp only [launches, Bool.and_eq_true, decide_eq_true_eq, List.all_eq_true] at h
  obtain ⟨⟨⟨⟨⟨hlen, hhead⟩, hshell⟩, hne⟩, hall⟩, -⟩ := h
  cases ws with
  | nil => cases hhead
  | cons env rest =>
    obtain rfl := Option.some.inj hhead
    have hlast : (rest.drop (rest.length - 3)).length = 3 := by
      simp only [List.length_cons] at hlen
      rw [List.length_drop]
      omega
    obtain ⟨x, y, payload, hdrop⟩ := List.length_eq_three.1 hlast
    have hassign : assignmentsOf ("env".toList :: rest) = rest.take (rest.length - 3) := by
      simp [assignmentsOf]
    have hdrop' : ("env".toList :: rest).drop (("env".toList :: rest).length - 3) = [x, y, payload] := by
      simp only [List.length_cons] at hlen ⊢
      rw [show rest.length + 1 - 3 = (rest.length - 3) + 1 by omega, List.drop_succ_cons, hdrop]
    rw [hdrop'] at hshell
    obtain ⟨rfl, rfl⟩ : x = "/bin/sh".toList ∧ y = "-c".toList := by simpa using hshell
    have hsplit : rest = rest.take (rest.length - 3) ++ ["/bin/sh".toList, "-c".toList, payload] := by
      rw [← hdrop, List.take_append_drop]
    refine ⟨payload, ?_, ?_, hne, hall⟩
    · rw [hassign, List.cons_append, ← hsplit]
    · rw [hsplit, ← List.cons_append, List.getLast?_append]
      rfl

end Exports

/-- The launcher is kept as the shell reads it, exactly when the readers agree on a command that is rewritten. -/
theorem collectorVisibleLauncher_preserves (command executionId : Text) :
    Preserves command (collectorVisibleLauncher command executionId) ↔
      (literal none false command = true → ∀ ws, words shlex command = some ws → launches executionId ws = true →
        agrees .plain true command = true) := by
  have hkeep : collectorVisibleLauncher command executionId = command →
      Preserves command (collectorVisibleLauncher command executionId) := .inl
  by_cases hl : literal none false command = true
  · cases hw : words shlex command with
    | none =>
      refine ⟨fun _ _ ws h => ?_, fun _ => hkeep (by simp [collectorVisibleLauncher, hl, hw])⟩
      cases h
    | some ws =>
      by_cases hlaunch : launches executionId ws = true
      · obtain ⟨payload, hws, hlast, hne, hall⟩ := launches_spec hlaunch
        have hresult : collectorVisibleLauncher command executionId =
            "export ".toList ++ [' '].intercalate ((assignmentsOf ws).map shlexQuote) ++ '\n' :: payload := by
          simp only [collectorVisibleLauncher, hl, hw, hlaunch, if_true, hlast]
        have hexports := words_exports hne
        have hiff := words_iff hl hw
        constructor
        · rintro h _ ws' hws' -
          obtain rfl := Option.some.inj hws'
          rcases h with hsame | ⟨l, payload', exports, -, -, hshell, heq, hwords⟩
          · have hexport : run shlex {} "export ".toList = some ⟨.plain, ["export".toList], none⟩ := rfl
            rw [hresult, List.append_assoc] at hsame
            rw [words, ← hsame, run_append, hexport, Option.bind_some] at hw
            have hhead := done_kept_words hw
            rw [hws] at hhead
            exact absurd hhead (by simp)
          · rw [hresult] at heq
            obtain ⟨rfl, rfl⟩ := line_unique (by decide) (by decide) hexports hwords heq
            rw [hexports, Option.some.injEq, List.cons.injEq] at hwords
            rw [← hwords.2, ← hws] at hshell
            exact hiff.1 hshell
        · intro h
          refine .inr ⟨_, payload, _, hne, hall, ?_, hresult, hexports⟩
          rw [← hws]
          exact hiff.2 (h hl ws rfl hlaunch)
      · refine ⟨?_, fun _ => hkeep (by simp [collectorVisibleLauncher, hl, hw, hlaunch])⟩
        rintro _ _ ws' hws' hlaunch'
        obtain rfl := Option.some.inj hws'
        exact absurd hlaunch' hlaunch
  · exact ⟨fun _ h => absurd h hl, fun _ => hkeep (by simp [collectorVisibleLauncher, hl])⟩

theorem escaped_dollar_kept :
    ¬ Preserves "env CLAWTUNE_EXECUTION_ID=x /bin/sh -c \"echo \\$HOME\"".toList
      (collectorVisibleLauncher "env CLAWTUNE_EXECUTION_ID=x /bin/sh -c \"echo \\$HOME\"".toList "x".toList) := by
  have hresult : collectorVisibleLauncher "env CLAWTUNE_EXECUTION_ID=x /bin/sh -c \"echo \\$HOME\"".toList "x".toList =
      "export CLAWTUNE_EXECUTION_ID=x\necho \\$HOME".toList := by decide +kernel
  have hshell : words shell "env CLAWTUNE_EXECUTION_ID=x /bin/sh -c \"echo \\$HOME\"".toList =
      some ["env".toList, "CLAWTUNE_EXECUTION_ID=x".toList, "/bin/sh".toList, "-c".toList, "echo $HOME".toList] := by
    decide +kernel
  rw [hresult]
  rintro (hsame | ⟨l, payload, exports, -, -, hwords, heq, -⟩)
  · exact absurd hsame (by decide)
  · rw [hshell] at hwords
    have hpayload : payload = "echo $HOME".toList := by
      have hlast := congrArg List.getLast? (Option.some.inj hwords)
      rw [List.getLast?_append] at hlast
      exact Option.some.inj hlast.symm
    have hsuffix : payload <:+ "export CLAWTUNE_EXECUTION_ID=x\necho \\$HOME".toList :=
      ⟨exports ++ ['\n'], by rw [heq, List.append_assoc, List.singleton_append]⟩
    rw [hpayload] at hsuffix
    exact absurd hsuffix (by decide)

end ClawBox.PolicySsh
