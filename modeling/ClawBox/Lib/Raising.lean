import Mathlib.Tactic.Common

def Raising (σ ε α : Type*) := σ → Except ε α × σ

namespace Raising

variable {σ ε α β : Type}

def run (x : Raising σ ε α) (s : σ) : Except ε α × σ := x s

instance : Monad (Raising σ ε) where
  pure a := fun s => (.ok a, s)
  bind x f := fun s =>
    match x s with
    | (.ok a, t) => f a t
    | (.error e, t) => (.error e, t)

def raise (e : ε) : Raising σ ε α := fun s => (.error e, s)

def get : Raising σ ε σ := fun s => (.ok s, s)

def tryExcept (x : Raising σ ε α) (h : ε → Raising σ ε α) : Raising σ ε α := fun s =>
  match x s with
  | (.ok a, t) => (.ok a, t)
  | (.error e, t) => h e t

def modify (f : σ → σ) : Raising σ ε Unit := fun s => (.ok (), f s)

theorem run_bind (x : Raising σ ε α) (f : α → Raising σ ε β) (s : σ) :
    (x >>= f).run s = match x.run s with
      | (.ok a, t) => (f a).run t
      | (.error e, t) => (.error e, t) := rfl

@[simp] theorem run_pure (a : α) (s : σ) : (pure a : Raising σ ε α).run s = (.ok a, s) := rfl

@[simp] theorem run_raise (e : ε) (s : σ) : (raise e : Raising σ ε α).run s = (.error e, s) := rfl

@[simp] theorem run_modify (f : σ → σ) (s : σ) : (modify f : Raising σ ε Unit).run s = (.ok (), f s) := rfl

@[simp] theorem run_get_bind (f : σ → Raising σ ε β) (s : σ) : (get >>= f).run s = (f s).run s := rfl

@[simp] theorem run_pure_bind (a : α) (f : α → Raising σ ε β) (s : σ) : (pure a >>= f).run s = (f a).run s := rfl

@[simp] theorem run_modify_bind (g : σ → σ) (f : Unit → Raising σ ε β) (s : σ) :
    (modify g >>= f).run s = (f ()).run (g s) := rfl

@[simp] theorem run_raise_bind (e : ε) (f : α → Raising σ ε β) (s : σ) :
    (raise e >>= f).run s = (.error e, s) := rfl

@[simp] theorem run_ite (c : Prop) [Decidable c] (x y : Raising σ ε α) (s : σ) :
    (if c then x else y).run s = if c then x.run s else y.run s := by
  split_ifs <;> rfl

theorem run_tryExcept (x : Raising σ ε α) (h : ε → Raising σ ε α) (s : σ) :
    (x.tryExcept h).run s = match x.run s with
      | (.ok a, t) => (.ok a, t)
      | (.error e, t) => (h e).run t := rfl

theorem run_bind_ok {x : Raising σ ε α} {a : α} {s t : σ} (h : x.run s = (.ok a, t)) (f : α → Raising σ ε β) :
    (x >>= f).run s = (f a).run t := by
  rw [run_bind, h]

theorem run_bind_error {x : Raising σ ε α} {e : ε} {s t : σ} (h : x.run s = (.error e, t)) (f : α → Raising σ ε β) :
    (x >>= f).run s = (.error e, t) := by
  rw [run_bind, h]

theorem bind_eq_ok {x : Raising σ ε α} {f : α → Raising σ ε β} {b : β} {s u : σ} (h : (x >>= f).run s = (.ok b, u)) :
    ∃ a t, x.run s = (.ok a, t) ∧ (f a).run t = (.ok b, u) := by
  rw [run_bind] at h
  rcases hx : x.run s with ⟨r, t⟩
  rw [hx] at h
  cases r with
  | ok a => exact ⟨a, t, rfl, h⟩
  | error e => cases h

def Frames (f : σ → β) (x : Raising σ ε α) : Prop := ∀ s, f (x.run s).2 = f s

section Frames

variable {γ : Type} {f : σ → γ}

theorem Frames.pure (a : α) : Frames f (Pure.pure a : Raising σ ε α) := fun _ => rfl

theorem Frames.raise (e : ε) : Frames f (raise e : Raising σ ε α) := fun _ => rfl

theorem Frames.raise_bind (e : ε) (k : α → Raising σ ε β) : Frames f (Raising.raise e >>= k) := fun _ => rfl

theorem Frames.modify {g : σ → σ} (h : ∀ s, f (g s) = f s) : Frames f (modify g : Raising σ ε Unit) := h

theorem Frames.bind {x : Raising σ ε α} {k : α → Raising σ ε β} (hx : Frames f x) (hk : ∀ a, Frames f (k a)) :
    Frames f (x >>= k) := by
  intro s
  rw [run_bind]
  have h := hx s
  rcases hr : x.run s with ⟨r, t⟩
  rw [hr] at h
  cases r with
  | ok a => exact (hk a t).trans h
  | error e => exact h

theorem Frames.modify_bind {g : σ → σ} {k : Unit → Raising σ ε β} (h : ∀ s, f (g s) = f s) (hk : Frames f (k ())) :
    Frames f (Raising.modify g >>= k) :=
  Frames.bind (Frames.modify h) fun _ => hk

theorem Frames.get_bind {k : σ → Raising σ ε β} (hk : ∀ s, Frames f (k s)) : Frames f (get >>= k) := fun s => hk s s

theorem Frames.ite {c : Prop} [Decidable c] {x y : Raising σ ε α} (hx : Frames f x) (hy : Frames f y) :
    Frames f (if c then x else y) := by
  split_ifs
  · exact hx
  · exact hy

end Frames

section Moves

variable {R : σ → σ → Prop}

def Moves (R : σ → σ → Prop) (x : Raising σ ε α) : Prop := ∀ s, R s (x.run s).2

theorem Moves.pure (hr : ∀ s, R s s) (a : α) : Moves R (Pure.pure a : Raising σ ε α) := hr

theorem Moves.raise (hr : ∀ s, R s s) (e : ε) : Moves R (raise e : Raising σ ε α) := hr

theorem Moves.modify {g : σ → σ} (h : ∀ s, R s (g s)) : Moves R (modify g : Raising σ ε Unit) := h

theorem Moves.bind (ht : ∀ s t u, R s t → R t u → R s u) {x : Raising σ ε α} {k : α → Raising σ ε β} (hx : Moves R x)
    (hk : ∀ a, Moves R (k a)) : Moves R (x >>= k) := by
  intro s
  rw [run_bind]
  have h := hx s
  rcases hrun : x.run s with ⟨r, t⟩
  rw [hrun] at h
  cases r with
  | ok a => exact ht s t _ h (hk a t)
  | error e => exact h

theorem Moves.get_bind {k : σ → Raising σ ε β} (hk : ∀ s, R s ((k s).run s).2) : Moves R (get >>= k) := hk

theorem Moves.ite {c : Prop} [Decidable c] {x y : Raising σ ε α} (hx : Moves R x) (hy : Moves R y) :
    Moves R (if c then x else y) := by
  split_ifs
  · exact hx
  · exact hy

end Moves

def require (c : Prop) [Decidable c] (e : ε) : Raising σ ε Unit := if c then Pure.pure () else raise e

def ofOption (e : ε) : Option α → Raising σ ε α
  | some a => Pure.pure a
  | none => raise e

section Triple

/-- From `P`, the code returns in `Q` or raises in `E`. -/
def Triple (P : σ → Prop) (x : Raising σ ε α) (Q : α → σ → Prop) (E : σ → Prop) : Prop :=
  ∀ s, P s → match x.run s with
    | (.ok a, t) => Q a t
    | (.error _, t) => E t

variable {P P' : σ → Prop} {E E' : σ → Prop} {Q : α → σ → Prop}

theorem Triple.pure {a : α} (h : ∀ s, P s → Q a s) : Triple P (Pure.pure a : Raising σ ε α) Q E := h

theorem Triple.raise {e : ε} (h : ∀ s, P s → E s) : Triple P (raise e : Raising σ ε α) Q E := h

theorem Triple.modify {g : σ → σ} {Q : Unit → σ → Prop} (h : ∀ s, P s → Q () (g s)) :
    Triple P (modify g : Raising σ ε Unit) Q E := h

theorem Triple.bind {x : Raising σ ε α} {k : α → Raising σ ε β} {R : β → σ → Prop} (hx : Triple P x Q E)
    (hk : ∀ a, Triple (Q a) (k a) R E) : Triple P (x >>= k) R E := by
  intro s hs
  have h := hx s hs
  rw [run_bind]
  rcases hr : x.run s with ⟨r, t⟩
  rw [hr] at h
  cases r with
  | ok a => exact hk a t h
  | error e => exact h

theorem Triple.get_bind {k : σ → Raising σ ε β} {R : β → σ → Prop} (hk : ∀ s, P s → Triple (· = s) (k s) R E) :
    Triple P (get >>= k) R E := fun s hs => hk s hs s rfl

theorem Triple.of_state {x : Raising σ ε α} (h : ∀ s, P s → Triple (· = s) x Q E) : Triple P x Q E :=
  fun s hs => h s hs s rfl

theorem Triple.ite {c : Prop} [Decidable c] {x y : Raising σ ε α} (hx : c → Triple P x Q E) (hy : ¬c → Triple P y Q E) :
    Triple P (if c then x else y) Q E := by
  split_ifs with hc
  · exact hx hc
  · exact hy hc

theorem Triple.require_bind {c : Prop} [Decidable c] {e : ε} {k : Unit → Raising σ ε β} {R : β → σ → Prop}
    (hc : c → Triple P (k ()) R E) (he : ∀ s, P s → E s) : Triple P (require c e >>= k) R E := by
  unfold require
  by_cases h : c
  · rw [if_pos h]
    exact hc h
  · rw [if_neg h]
    exact fun s hs => he s hs

theorem Triple.ofOption_bind {o : Option α} {e : ε} {k : α → Raising σ ε β} {R : β → σ → Prop}
    (hk : ∀ a, o = some a → Triple P (k a) R E) (he : ∀ s, P s → E s) : Triple P (ofOption e o >>= k) R E := by
  cases ho : o with
  | none => exact fun s hs => he s hs
  | some a => exact hk a ho

theorem Triple.met_bind {c : Prop} [Decidable c] {e : ε} {k : Unit → Raising σ ε β} {R : β → σ → Prop} (hc : c)
    (hk : Triple P (k ()) R E) : Triple P (require c e >>= k) R E := by
  unfold require
  rw [if_pos hc]
  exact hk

theorem Triple.some_bind {o : Option α} {a : α} {e : ε} {k : α → Raising σ ε β} {R : β → σ → Prop} (ho : o = some a)
    (hk : Triple P (k a) R E) : Triple P (ofOption e o >>= k) R E := by
  subst ho
  exact hk

theorem Triple.weaken {Q' : α → σ → Prop} {x : Raising σ ε α} (h : Triple P x Q E) (hp : ∀ s, P' s → P s)
    (hq : ∀ a s, Q a s → Q' a s) (he : ∀ s, E s → E' s) : Triple P' x Q' E' := by
  intro s hs
  have h := h s (hp s hs)
  rcases hr : x.run s with ⟨r, t⟩
  rw [hr] at h
  cases r with
  | ok a => exact hq a t h
  | error e => exact he t h

end Triple

end Raising
