import Mathlib.Data.List.Infix
import Mathlib.Tactic.Common

namespace Tokens

variable {α : Type*} {tok : α → Bool}

inductive Piece (α : Type*) where
  | word (w : List α)
  | other (c : α)
  deriving DecidableEq

def Piece.text : Piece α → List α
  | .word w => w
  | .other c => [c]

def text (ps : List (Piece α)) : List α := ps.flatMap Piece.text

def grow (c : α) : List (Piece α) → List (Piece α)
  | .word w :: ps => .word (c :: w) :: ps
  | ps => .word [c] :: ps

@[simp] def pieces (tok : α → Bool) : List α → List (Piece α)
  | [] => []
  | c :: cs => if tok c then grow c (pieces tok cs) else .other c :: pieces tok cs

def IsWord (tok : α → Bool) (w : List α) : Prop := w ≠ [] ∧ ∀ c ∈ w, tok c = true

def Regular (tok : α → Bool) : List (Piece α) → Prop
  | [] => True
  | .other c :: ps => tok c = false ∧ Regular tok ps
  | .word w :: ps => IsWord tok w ∧ (∀ v qs, ps ≠ .word v :: qs) ∧ Regular tok ps

@[simp] theorem text_nil : text ([] : List (Piece α)) = [] := rfl

@[simp] theorem text_cons (p : Piece α) (ps : List (Piece α)) : text (p :: ps) = p.text ++ text ps := rfl

theorem text_grow (c : α) (ps : List (Piece α)) : text (grow c ps) = c :: text ps := by
  unfold grow
  split
  · rfl
  · rfl

theorem text_pieces (tok : α → Bool) (s : List α) : text (pieces tok s) = s := by
  induction s with
  | nil => rfl
  | cons c cs ih =>
    unfold pieces
    split_ifs
    · rw [text_grow, ih]
    · rw [text_cons, ih]
      rfl

theorem Regular.grow {ps : List (Piece α)} (h : Regular tok ps) {c : α} (hc : tok c = true) :
    Regular tok (Tokens.grow c ps) := by
  unfold Tokens.grow
  split
  · obtain ⟨⟨-, hw⟩, hnext, hrest⟩ := h
    refine ⟨⟨by simp, fun x hx => ?_⟩, hnext, hrest⟩
    rcases List.mem_cons.mp hx with rfl | hx
    · exact hc
    · exact hw x hx
  · rename_i hne
    exact ⟨⟨by simp, by simpa using hc⟩, fun v qs he => hne v qs he, h⟩

theorem regular_pieces (tok : α → Bool) (s : List α) : Regular tok (pieces tok s) := by
  induction s with
  | nil => trivial
  | cons c cs ih =>
    unfold pieces
    split_ifs with hc
    · exact ih.grow hc
    · exact ⟨by simpa using hc, ih⟩

theorem pieces_word_append {w : List α} (hw : IsWord tok w) {ps : List (Piece α)} (hps : ∀ v qs, ps ≠ .word v :: qs)
    {s : List α} (hs : pieces tok s = ps) : pieces tok (w ++ s) = .word w :: ps := by
  obtain ⟨hne, hall⟩ := hw
  induction w with
  | nil => exact absurd rfl hne
  | cons c w ih =>
    have hc := hall c List.mem_cons_self
    rw [List.cons_append, pieces, if_pos hc]
    cases w with
    | nil =>
      rw [List.nil_append, hs]
      cases ps with
      | nil => rfl
      | cons p ps =>
        cases p with
        | word v => exact absurd rfl (hps v ps)
        | other d => rfl
    | cons d w =>
      rw [ih (by simp) fun x hx => hall x (List.mem_cons_of_mem _ hx)]
      rfl

theorem pieces_text {ps : List (Piece α)} (h : Regular tok ps) : pieces tok (text ps) = ps := by
  induction ps with
  | nil => rfl
  | cons p ps ih =>
    cases p with
    | word w => exact pieces_word_append h.1 h.2.1 (ih h.2.2)
    | other c =>
      rw [text_cons, Piece.text, List.singleton_append, pieces, if_neg (by simp [h.1]), ih h.2]

theorem text_inj {ps qs : List (Piece α)} (hp : Regular tok ps) (hq : Regular tok qs) (h : text ps = text qs) :
    ps = qs := by
  rw [← pieces_text hp, h, pieces_text hq]

theorem Regular.after_word {w : List α} {ps : List (Piece α)} (h : Regular tok (.word w :: ps)) :
    ∀ c ∈ (text ps).head?, tok c = false := by
  intro c hc
  cases ps with
  | nil => cases hc
  | cons p ps =>
    cases p with
    | word v => exact absurd rfl (h.2.1 v ps)
    | other d =>
      cases hc
      exact h.2.2.1

theorem takeWhile_word {w rest : List α} (hw : ∀ c ∈ w, tok c = true) (hrest : ∀ c ∈ rest.head?, tok c = false) :
    (w ++ rest).takeWhile tok = w ∧ (w ++ rest).dropWhile tok = rest := by
  have hstop : rest.takeWhile tok = [] ∧ rest.dropWhile tok = rest := by
    cases rest with
    | nil => exact ⟨rfl, rfl⟩
    | cons c rest =>
      have hc := hrest c rfl
      simp [hc]
  rw [List.takeWhile_append_of_pos hw, List.dropWhile_append_of_pos hw, hstop.1, hstop.2, List.append_nil]
  exact ⟨rfl, rfl⟩

theorem eq_of_append_eq {v w r s : List α} (hv : ∀ c ∈ v, tok c = true) (hw : ∀ c ∈ w, tok c = true)
    (hr : ∀ c ∈ r.head?, tok c = false) (hs : ∀ c ∈ s.head?, tok c = false) (h : v ++ r = w ++ s) : v = w ∧ r = s := by
  obtain ⟨hv₁, hv₂⟩ := takeWhile_word hv hr
  obtain ⟨hw₁, hw₂⟩ := takeWhile_word hw hs
  rw [h] at hv₁ hv₂
  exact ⟨hv₁.symm.trans hw₁, hv₂.symm.trans hw₂⟩

theorem pieces_append_other {c : α} (hc : tok c = false) (r s : List α) :
    pieces tok (r ++ c :: s) = pieces tok r ++ .other c :: pieces tok s := by
  induction r with
  | nil => simp [pieces, hc]
  | cons d r ih =>
    rw [List.cons_append, pieces, pieces, ih]
    split_ifs
    · cases pieces tok r with
      | nil => rfl
      | cons p ps =>
        cases p with
        | word v => rfl
        | other x => rfl
    · rfl

section Walk

@[simp] def walk (f : List α → List α → List α → List α) : List α → List (Piece α) → List (Piece α)
  | _, [] => []
  | before, .word w :: ps => .word (f before w (text ps)) :: walk f (before ++ w) ps
  | before, .other c :: ps => .other c :: walk f (before ++ [c]) ps

variable {f g : List α → List α → List α → List α}

theorem walk_congr {before : List α} {ps : List (Piece α)}
    (h : ∀ p₁ w p₂, ps = p₁ ++ .word w :: p₂ → f (before ++ text p₁) w (text p₂) = g (before ++ text p₁) w (text p₂)) :
    walk f before ps = walk g before ps := by
  induction ps generalizing before with
  | nil => rfl
  | cons p ps ih =>
    have hrest : ∀ p₁ w p₂, ps = p₁ ++ .word w :: p₂ →
        f (before ++ p.text ++ text p₁) w (text p₂) = g (before ++ p.text ++ text p₁) w (text p₂) := by
      intro p₁ w p₂ he
      have hp := h (p :: p₁) w p₂ (by rw [he, List.cons_append])
      rwa [text_cons, ← List.append_assoc] at hp
    cases p with
    | word w =>
      have hw := h [] w ps rfl
      rw [text_nil, List.append_nil] at hw
      rw [walk, walk, hw]
      exact congrArg _ (ih hrest)
    | other c => exact congrArg _ (ih hrest)

theorem walk_append (before : List α) (ps qs : List (Piece α)) :
    walk f before (ps ++ qs) = walk (fun a w b => f a w (b ++ text qs)) before ps ++ walk f (before ++ text ps) qs := by
  induction ps generalizing before with
  | nil => simp [walk]
  | cons p ps ih =>
    cases p with
    | word w =>
      rw [List.cons_append, walk, walk, ih, List.cons_append, text_cons, Piece.text, List.append_assoc]
      simp [text]
    | other c => rw [List.cons_append, walk, walk, ih, List.cons_append, text_cons, Piece.text, List.append_assoc]

theorem length_walk (before : List α) (ps : List (Piece α)) : (walk f before ps).length = ps.length := by
  induction ps generalizing before with
  | nil => rfl
  | cons p ps ih => cases p <;> rw [walk, List.length_cons, List.length_cons, ih]

theorem eq_of_walk_eq {before w : List α} {p₁ p₂ : List (Piece α)}
    (h : walk f before (p₁ ++ .word w :: p₂) = walk g before (p₁ ++ .word w :: p₂)) :
    f (before ++ text p₁) w (text p₂) = g (before ++ text p₁) w (text p₂) := by
  rw [walk_append, walk_append] at h
  have htail := (List.append_inj h (by rw [length_walk, length_walk])).2
  rw [walk, walk] at htail
  injection htail with hhead
  injection hhead

theorem Regular.walk {ps : List (Piece α)} (h : Regular tok ps) (hf : ∀ a w b, IsWord tok w → IsWord tok (f a w b))
    (before : List α) : Regular tok (Tokens.walk f before ps) := by
  induction ps generalizing before with
  | nil => trivial
  | cons p ps ih =>
    cases p with
    | word w =>
      refine ⟨hf _ _ _ h.1, fun v qs he => ?_, ih h.2.2 _⟩
      cases ps with
      | nil => cases he
      | cons p ps =>
        cases p with
        | word v => exact h.2.1 v ps rfl
        | other c => cases he
    | other c => exact ⟨h.1, ih h.2 _⟩

theorem walk_id (before : List α) (ps : List (Piece α)) : walk (fun _ w _ => w) before ps = ps := by
  induction ps generalizing before with
  | nil => rfl
  | cons p ps ih => cases p <;> rw [walk, ih]

theorem walk_walk (g : List α → List α) (before before' : List α) (ps : List (Piece α)) :
    walk (fun _ w _ => g w) before' (walk f before ps) = walk (fun a w b => g (f a w b)) before ps := by
  induction ps generalizing before before' with
  | nil => rfl
  | cons p ps ih => cases p <;> rw [walk, walk, walk, ih]

theorem Regular.word {p₁ p₂ : List (Piece α)} {w : List α} (h : Regular tok (p₁ ++ .word w :: p₂)) : IsWord tok w := by
  induction p₁ with
  | nil => exact h.1
  | cons p p₁ ih =>
    cases p with
    | word v => exact ih h.2.2
    | other c => exact ih h.2

end Walk

end Tokens
