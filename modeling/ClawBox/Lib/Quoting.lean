import Mathlib

namespace Quoting

abbrev Text := List Char

def apostrophe : Char := '\x27'

structure Rules where
  blank : Char → Bool
  -- not to be read outside of quotes
  refused : Char → Bool
  -- not to be read in double quotes
  expands : Char → Bool
  -- what a backslash escapes in double quotes
  escapes : Char → Bool
  -- a backslash takes the newline behind it away
  joins : Bool
  comments : Bool

inductive Mode
  | plain
  | single
  | double
  | escape
  | doubleEscape
  | comment
  deriving DecidableEq

structure State where
  mode : Mode := .plain
  done : List Text := []
  word : Option Text := none

namespace State

def put (s : State) (mode : Mode) (cs : Text) : State := { s with mode, word := some (s.word.getD [] ++ cs) }

def turn (s : State) (mode : Mode) : State := { s with mode }

def close (s : State) : State := { s with done := s.done ++ s.word.toList, word := none }

def text (s : State) : Text := s.done.flatten ++ s.word.getD []

@[simp] theorem put_mode (s : State) (m : Mode) (cs : Text) : (s.put m cs).mode = m := rfl

@[simp] theorem turn_mode (s : State) (m : Mode) : (s.turn m).mode = m := rfl

@[simp] theorem turn_word (s : State) (m : Mode) : (s.turn m).word = s.word := rfl

@[simp] theorem put_word (s : State) (m : Mode) (cs : Text) : (s.put m cs).word = some (s.word.getD [] ++ cs) := rfl

@[simp] theorem close_mode (s : State) : s.close.mode = s.mode := rfl

@[simp] theorem text_put (s : State) (m : Mode) (cs : Text) : (s.put m cs).text = s.text ++ cs := by
  simp [text, put]

@[simp] theorem text_turn (s : State) (m : Mode) : (s.turn m).text = s.text := rfl

@[simp] theorem text_close (s : State) : s.close.text = s.text := by
  cases hw : s.word with
  | none => simp [text, close, hw]
  | some w => simp [text, close, hw]

end State

def step (R : Rules) (s : State) (c : Char) : Option State :=
  match s.mode with
  | .plain =>
    if c = '\\' then some (s.turn .escape)
    else if c = apostrophe then some (s.put .single [])
    else if c = '"' then some (s.put .double [])
    else if R.blank c then some s.close
    else if R.comments = true ∧ c = '#' ∧ s.word = none then some (s.turn .comment)
    else if R.refused c then none
    else some (s.put .plain [c])
  | .single => if c = apostrophe then some (s.turn .plain) else some (s.put .single [c])
  | .double =>
    if c = '"' then some (s.turn .plain)
    else if c = '\\' then some (s.turn .doubleEscape)
    else if R.expands c then none
    else some (s.put .double [c])
  | .escape => if R.joins = true ∧ c = '\n' then some (s.turn .plain) else some (s.put .plain [c])
  | .doubleEscape =>
    if R.joins = true ∧ c = '\n' then some (s.turn .double)
    else if R.escapes c then some (s.put .double [c])
    else some (s.put .double ['\\', c])
  | .comment => if c = '\n' then none else some s

def run (R : Rules) (s : State) : Text → Option State
  | [] => some s
  | c :: cs => (step R s c).bind fun t => run R t cs

def finish (s : State) : Option (List Text) := if s.mode = .plain ∨ s.mode = .comment then some s.close.done else none

def words (R : Rules) (line : Text) : Option (List Text) := (run R {} line).bind finish

variable {R : Rules}

theorem run_append (s : State) (xs ys : Text) : run R s (xs ++ ys) = (run R s xs).bind fun t => run R t ys := by
  induction xs generalizing s with
  | nil => rfl
  | cons x xs ih =>
    rw [List.cons_append, run, run]
    cases step R s x with
    | none => rfl
    | some t => exact ih t

theorem text_of_finish {s : State} {ws : List Text} (h : finish s = some ws) : ws.flatten = s.text := by
  rw [finish] at h
  split_ifs at h
  obtain rfl := Option.some.inj h
  have htext := s.text_close
  simpa [State.text, State.close] using htext

theorem done_kept {s t : State} {cs : Text} (h : run R s cs = some t) : s.done <+: t.done := by
  induction cs generalizing s with
  | nil =>
    obtain rfl := Option.some.inj h
    exact List.prefix_rfl
  | cons c cs ih =>
    obtain ⟨u, hu, hrest⟩ := Option.bind_eq_some_iff.1 h
    refine List.IsPrefix.trans ?_ (ih hrest)
    unfold step at hu
    split at hu <;> split_ifs at hu <;> obtain rfl := Option.some.inj hu
    all_goals first
      | exact List.prefix_rfl
      | exact List.prefix_append _ _

theorem done_kept_words {s : State} {cs : Text} {ws : List Text} (h : (run R s cs).bind finish = some ws) :
    s.done <+: ws := by
  obtain ⟨t, ht, hfin⟩ := Option.bind_eq_some_iff.1 h
  rw [finish] at hfin
  split_ifs at hfin
  obtain rfl := Option.some.inj hfin
  exact (done_kept ht).trans (List.prefix_append _ _)

theorem run_newline (hr : R.refused '\n' = true) (hb : R.blank '\n' = false) {line : Text} {ws : List Text}
    (h : words R line = some ws) (more : Text) : run R {} (line ++ '\n' :: more) = none := by
  obtain ⟨t, ht, hfin⟩ := Option.bind_eq_some_iff.1 h
  rw [finish] at hfin
  split_ifs at hfin with hmode
  have hstep : step R t '\n' = none := by
    cases hmode with
    | inl hplain => simp [step, hplain, hb, hr, apostrophe]
    | inr hcomment => simp [step, hcomment]
  rw [run_append, ht, Option.bind_some, run, hstep]
  rfl

theorem line_unique (hr : R.refused '\n' = true) (hb : R.blank '\n' = false) {x y xs ys : Text} {vs ws : List Text}
    (hx : words R x = some vs) (hy : words R y = some ws) (h : x ++ '\n' :: xs = y ++ '\n' :: ys) :
    x = y ∧ xs = ys := by
  have hshort : ∀ {x y m : Text} {vs ws : List Text}, words R x = some vs → words R y = some ws →
      y ≠ x ++ '\n' :: m := by
    rintro x y m vs ws hx hy rfl
    rw [words, run_newline hr hb hx m] at hy
    cases hy
  rcases List.append_eq_append_iff.1 h with ⟨m, hm, hrest⟩ | ⟨m, hm, hrest⟩
  · cases m with
    | nil => exact ⟨by simpa using hm.symm, by simpa using hrest⟩
    | cons c m =>
      obtain rfl := (List.cons.inj hrest).1
      exact absurd hm (hshort hx hy)
  · cases m with
    | nil => exact ⟨by simpa using hm, by simpa using hrest.symm⟩
    | cons c m =>
      obtain rfl := (List.cons.inj hrest).1
      exact absurd hm (hshort hy hx)

end Quoting
