import ClawBox.Lib.Transition
import Mathlib.Logic.Relation
import Mathlib.Control.Basic

namespace Remote

open Transition

structure Api where
  State : Type
  Req : Type
  Resp : Req → Type
  act : (r : Req) → State → Resp r → State → Prop
  others : State → State → Prop

inductive Prog (A : Api) (α : Type) : Type
  | ret (x : α)
  | call (r : A.Req) (k : A.Resp r → Prog A α)

variable {A : Api} {α β ε : Type}

namespace Prog

def bind : Prog A α → (α → Prog A β) → Prog A β
  | ret x, f => f x
  | call r k, f => call r fun a => (k a).bind f

instance : Monad (Prog A) where
  pure := ret
  bind := bind

end Prog

abbrev Code (A : Api) (ε : Type) := ExceptT ε (Prog A)

namespace Code

def call (r : A.Req) : Code A ε (A.Resp r) := .mk (.call r fun a => .ret (.ok a))

end Code

section Machine

inductive Step (body : Prog A Unit) : A.State × Prog A Unit → Option A.Req → A.State × Prog A Unit → Prop
  | others {s t : A.State} {p : Prog A Unit} : A.others s t → Step body (s, p) none (t, p)
  | call {s t : A.State} {r : A.Req} {k : A.Resp r → Prog A Unit} {a : A.Resp r} :
      A.act r s a t → Step body (s, .call r k) (some r) (t, k a)
  | again {s : A.State} {p : Prog A Unit} : Step body (s, p) none (s, body)

def forever (start : A.State → Prop) (body : Prog A Unit) : System (A.State × Prog A Unit) (Option A.Req) :=
  ⟨fun c => start c.1 ∧ c.2 = body, Step body⟩

end Machine

/-- What a program promises: an invariant, which the others keep too, and a relation that each of its requests is in.
-/
structure Pact (A : Api) where
  Inv : A.State → Prop
  Guar : A.State → A.State → Prop
  kept : ∀ s t, Inv s → A.others s t → Inv t

namespace Pact

variable (P : Pact A)

def Stable (R : A.State → Prop) : Prop := ∀ s t, P.Inv s → A.others s t → R s → R t

def wp : Prog A α → (α → A.State → Prop) → A.State → Prop
  | .ret x, Q, s => Q x s
  | .call r k, Q, s => ∀ t, Relation.ReflTransGen A.others s t → ∀ a u, A.act r t a u →
      P.Inv u ∧ P.Guar t u ∧ wp (k a) Q u

def Triple (R : A.State → Prop) (x : Code A ε α) (Q : α → A.State → Prop) : Prop :=
  ∀ s, P.Inv s → R s → P.wp x.run (fun r s => ∀ a, r = .ok a → Q a s) s

variable {P}

theorem inv_closure {s t : A.State} (hs : P.Inv s) (h : Relation.ReflTransGen A.others s t) : P.Inv t := by
  induction h with
  | refl => exact hs
  | tail _ hst ih => exact P.kept _ _ ih hst

theorem Stable.closure {R : A.State → Prop} (hR : P.Stable R) {s t : A.State} (hs : P.Inv s)
    (h : Relation.ReflTransGen A.others s t) (hr : R s) : R t := by
  induction h with
  | refl => exact hr
  | tail hss hst ih => exact hR _ _ (inv_closure hs hss) hst ih

theorem Stable.and {R R' : A.State → Prop} (h : P.Stable R) (h' : P.Stable R') : P.Stable fun s => R s ∧ R' s :=
  fun s t hs ht hr => ⟨h s t hs ht hr.1, h' s t hs ht hr.2⟩

theorem stable_true : P.Stable fun _ => True := fun _ _ _ _ _ => trivial

theorem wp_mono {x : Prog A α} {Q Q' : α → A.State → Prop} (h : ∀ a s, P.Inv s → Q a s → Q' a s) {s : A.State}
    (hs : P.Inv s) (hx : P.wp x Q s) : P.wp x Q' s := by
  induction x generalizing s with
  | ret a => exact h a s hs hx
  | call r k ih =>
    intro t ht a u ha
    obtain ⟨hu, hg, hw⟩ := hx t ht a u ha
    exact ⟨hu, hg, ih a hu hw⟩

theorem wp_bind {x : Prog A α} {f : α → Prog A β} {Q : β → A.State → Prop} {s : A.State}
    (hx : P.wp x (fun a s => P.wp (f a) Q s) s) : P.wp (x.bind f) Q s := by
  induction x generalizing s with
  | ret a => exact hx
  | call r k ih =>
    intro t ht a u ha
    obtain ⟨hu, hg, hw⟩ := hx t ht a u ha
    exact ⟨hu, hg, ih a hw⟩

theorem wp_others {x : Prog A α} {Q : α → A.State → Prop} (hQ : ∀ a, P.Stable (Q a)) {s t : A.State} (hs : P.Inv s)
    (ht : A.others s t) (hx : P.wp x Q s) : P.wp x Q t := by
  cases x with
  | ret a => exact hQ a s t hs ht hx
  | call r k => exact fun u hu => hx u (.head ht hu)

theorem wp_frame {x : Prog A α} {Q : α → A.State → Prop} {R : A.State → Prop} (hR : P.Stable R)
    (hG : ∀ s t, P.Inv s → P.Guar s t → R s → R t) {s : A.State} (hs : P.Inv s) (hr : R s) (hx : P.wp x Q s) :
    P.wp x (fun a s => Q a s ∧ R s) s := by
  induction x generalizing s with
  | ret a => exact ⟨hx, hr⟩
  | call r k ih =>
    intro t ht a u ha
    obtain ⟨hu, hg, hw⟩ := hx t ht a u ha
    exact ⟨hu, hg, ih a hu (hG t u (inv_closure hs ht) hg (hR.closure hs ht hr)) hw⟩

theorem wp_weaken {P' : Pact A} (hinv : P'.Inv = P.Inv) (hG : ∀ s t, P.Inv s → P.Guar s t → P'.Guar s t) {x : Prog A α}
    {Q : α → A.State → Prop} {s : A.State} (hs : P.Inv s) (hx : P.wp x Q s) : P'.wp x Q s := by
  induction x generalizing s with
  | ret a => exact hx
  | call r k ih =>
    intro t ht a u ha
    obtain ⟨hu, hg, hw⟩ := hx t ht a u ha
    exact ⟨hinv ▸ hu, hG t u (inv_closure hs ht) hg, ih a hu hw⟩

variable {R : A.State → Prop} {Q : α → A.State → Prop}

theorem Triple.conseq {R' : A.State → Prop} {x : Code A ε α} {Q' : α → A.State → Prop} (hx : P.Triple R x Q)
    (hR : ∀ s, P.Inv s → R' s → R s) (hQ : ∀ a s, P.Inv s → Q a s → Q' a s) : P.Triple R' x Q' :=
  fun s hs hr => wp_mono (fun _ s hs h a ha => hQ a s hs (h a ha)) hs (hx s hs (hR s hs hr))

theorem Triple.pre {R' : A.State → Prop} {x : Code A ε α} (hx : P.Triple R x Q) (hR : ∀ s, P.Inv s → R' s → R s) :
    P.Triple R' x Q :=
  hx.conseq hR fun _ _ _ h => h

theorem Triple.frame {R' : A.State → Prop} {x : Code A ε α} (hx : P.Triple R x Q) (hst : P.Stable R')
    (hG : ∀ s t, P.Inv s → P.Guar s t → R' s → R' t) :
    P.Triple (fun s => R s ∧ R' s) x (fun a s => Q a s ∧ R' s) :=
  fun s hs hr => wp_mono (fun _ _ _ h a ha => ⟨h.1 a ha, h.2⟩) hs (wp_frame hst hG hs hr.2 (hx s hs hr.1))

theorem Triple.weaken {P' : Pact A} {x : Code A ε α} (hx : P.Triple R x Q) (hinv : P'.Inv = P.Inv)
    (hG : ∀ s t, P.Inv s → P.Guar s t → P'.Guar s t) : P'.Triple R x Q :=
  fun s hs hr => wp_weaken hinv hG (hinv ▸ hs) (hx s (hinv ▸ hs) hr)

theorem triple_pure {x : α} (h : ∀ s, P.Inv s → R s → Q x s) : P.Triple R (pure x : Code A ε α) Q := by
  intro s hs hr a ha
  cases ha
  exact h s hs hr

theorem triple_throw {e : ε} : P.Triple R (throw e : Code A ε α) Q := by
  intro s _ _ a ha
  cases ha

theorem triple_call {r : A.Req} {Q : A.Resp r → A.State → Prop} (hR : P.Stable R)
    (h : ∀ s a t, P.Inv s → R s → A.act r s a t → P.Inv t ∧ P.Guar s t ∧ Q a t) :
    P.Triple R (Code.call r : Code A ε (A.Resp r)) Q := by
  intro s hs hr t ht a u ha
  obtain ⟨hu, hg, hq⟩ := h t a u (inv_closure hs ht) (hR.closure hs ht hr) ha
  refine ⟨hu, hg, fun b hb => ?_⟩
  cases hb
  exact hq

theorem triple_bind {x : Code A ε α} {f : α → Code A ε β} {Q' : β → A.State → Prop} (hx : P.Triple R x Q)
    (hf : ∀ a, P.Triple (Q a) (f a) Q') : P.Triple R (x >>= f) Q' := by
  intro s hs hr
  apply wp_bind
  refine wp_mono ?_ hs (hx s hs hr)
  intro r t ht hm
  cases r with
  | ok a => exact hf a t ht (hm a rfl)
  | error e =>
    intro b hb
    cases hb

theorem triple_ite {c : Prop} [Decidable c] {x y : Code A ε α} (hx : c → P.Triple R x Q) (hy : ¬ c → P.Triple R y Q) :
    P.Triple R (if c then x else y) Q := by
  split_ifs with hc
  · exact hx hc
  · exact hy hc

section Sound

variable {start : A.State → Prop} {body : Prog A Unit}

theorem sound (hstart : ∀ s, start s → P.Inv s) (hbody : ∀ s, P.Inv s → P.wp body (fun _ _ => True) s)
    {c : A.State × Prog A Unit} (h : Reachable (forever start body) c) :
    P.Inv c.1 ∧ P.wp c.2 (fun _ _ => True) c.1 := by
  refine h.invariant (I := fun c => P.Inv c.1 ∧ P.wp c.2 (fun _ _ => True) c.1) ?_ ?_
  · rintro ⟨s, p⟩ ⟨hs, rfl⟩
    exact ⟨hstart s hs, hbody s (hstart s hs)⟩
  · rintro c l d ⟨hs, hw⟩ hd
    cases hd with
    | others ho => exact ⟨P.kept _ _ hs ho, wp_others (fun _ => stable_true) hs ho hw⟩
    | call ha =>
      obtain ⟨hu, -, hk⟩ := hw _ .refl _ _ ha
      exact ⟨hu, hk⟩
    | again => exact ⟨hs, hbody _ hs⟩

theorem sound_step (hstart : ∀ s, start s → P.Inv s) (hbody : ∀ s, P.Inv s → P.wp body (fun _ _ => True) s)
    {c d : A.State × Prog A Unit} {l : Option A.Req} (h : Reachable (forever start body) c)
    (hd : (forever start body).step c l d) :
    A.others c.1 d.1 ∨ P.Guar c.1 d.1 ∨ d.1 = c.1 := by
  obtain ⟨hs, hw⟩ := sound hstart hbody h
  cases hd with
  | others ho => exact .inl ho
  | call ha => exact .inr (.inl (hw _ .refl _ _ ha).2.1)
  | again => exact .inr (.inr rfl)

end Sound

end Pact

end Remote
