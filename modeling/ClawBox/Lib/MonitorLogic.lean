import ClawBox.Lib.Monitor

namespace Monitor

variable {S : Sig} {ε α β γ : Type}

abbrev Code (S : Sig) (ε : Type) := ExceptT ε (Prog S)

namespace Code

def read : Code S ε S.State := .mk (.get fun s => .ret (.ok s))

def ask (q : S.Ask) : Code S ε (S.Ans q) := .mk (.ask q fun a => .ret (.ok a))

def act (a : S.Act) : Code S ε (S.Res a) := .mk (.act a fun r => .ret (.ok r))

def lock : Code S ε Unit := .mk (.lock (.ret (.ok ())))

def unlock (w : S.Window) : Code S ε Unit := .mk (.unlock w (.ret (.ok ())))

def releaseSave (w : S.Window) : Code S ε ℕ := .mk (.save w fun n => .ret (.ok n))

def acquireRestore (n : ℕ) : Code S ε Unit := .mk (.restore n (.ret (.ok ())))

def down (g : S.Gate) : Code S ε Bool := .mk (.down g fun b => .ret (.ok b))

def up (g : S.Gate) : Code S ε Unit := .mk (.up g (.ret (.ok ())))

def attempt (x : Code S ε α) : Code S ε (Except ε α) := .mk (x.run.bind fun r => .ret (.ok r))

def result : Except ε α → Code S ε α := fun r => .mk (.ret r)

def tryFinally (x : Code S ε α) (fin : Code S ε Unit) : Code S ε α := do
  let r ← attempt x
  fin
  result r

def locked (w : S.Window) (x : Code S ε α) : Code S ε α := do
  lock
  tryFinally x (unlock w)

def unlocked (w : S.Window) (x : Code S ε α) : Code S ε α := do
  let n ← releaseSave w
  tryFinally x (acquireRestore n)

/-- `x` between `release` and `acquire`, which drop and take one level only -/
def released (w : S.Window) (x : Code S ε α) : Code S ε α := do
  unlock w
  tryFinally x lock

def exit (r : Except ε (β ⊕ γ)) : β ⊕ Except ε γ :=
  match r with
  | .ok (.inl b) => .inl b
  | .ok (.inr g) => .inr (.ok g)
  | .error e => .inr (.error e)

def forever (body : β → Code S ε (β ⊕ γ)) (b : β) : Code S ε γ :=
  .mk (.loop (fun b => (body b).run.bind fun r => .ret (exit r)) b .ret)

/-- A caller that already owns the lock `n` times. -/
def nested (w : S.Window) : ℕ → Code S ε α → Code S ε α
  | 0, x => x
  | n + 1, x => locked w (nested w n x)

end Code

open Code

namespace Spec

variable (T : Spec S) (t : Thread)

def Sat (P : S.State → Prop) : Ctx S → Prop
  | .held s _ => T.Inv s ∧ P s
  | .free none => ∀ s, T.Inv s → P s
  | .free (some (_, s)) => T.Inv s ∧ P s

def Triple (n : ℕ) (P : S.State → Prop) (x : Code S ε α) (Q : Except ε α → S.State → Prop) : Prop :=
  ∀ c, c.depth = n → T.Sat P c → T.wp t x.run (fun r c => c.depth = n ∧ T.Sat (Q r) c) c

def Stable (P : S.State → Prop) : Prop := ∀ w s₀ s, T.Inv s₀ → T.Inv s → P s₀ → T.Rely t w s₀ s → P s

variable {T t} {n : ℕ} {P : S.State → Prop}

theorem Sat.mono {P' : S.State → Prop} {c : Ctx S} (hP : ∀ s, T.Inv s → P s → P' s) (h : T.Sat P c) : T.Sat P' c := by
  cases c with
  | held s n => exact ⟨h.1, hP s h.1 h.2⟩
  | free o =>
    cases o with
    | none => exact fun s hs => hP s hs (h s hs)
    | some o => exact ⟨h.1, hP _ h.1 h.2⟩

theorem Stable.back {o : Option (S.Window × S.State)} {s : S.State} (hP : T.Stable t P) (h : T.Sat P (.free o))
    (hs : T.Back t o s) : T.Inv s ∧ P s := by
  cases o with
  | none => exact ⟨hs, h s hs⟩
  | some o => exact ⟨hs.1, hP _ _ _ h.1 hs.1 h.2 hs.2⟩

theorem Triple.conseq {P' : S.State → Prop} {x : Code S ε α} {Q Q' : Except ε α → S.State → Prop}
    (h : T.Triple t n P x Q) (hP : ∀ s, T.Inv s → P' s → P s) (hQ : ∀ r s, T.Inv s → Q r s → Q' r s) :
    T.Triple t n P' x Q' := by
  intro c hc hs
  apply wp_mono _ (h c hc (hs.mono hP))
  intro r d hd
  exact ⟨hd.1, hd.2.mono (hQ r)⟩

theorem Triple.post {x : Code S ε α} {Q Q' : Except ε α → S.State → Prop} (h : T.Triple t n P x Q)
    (hQ : ∀ r s, T.Inv s → Q r s → Q' r s) : T.Triple t n P x Q' :=
  h.conseq (fun _ _ h => h) hQ

theorem Triple.pre {P' : S.State → Prop} {x : Code S ε α} {Q : Except ε α → S.State → Prop}
    (h : T.Triple t n P x Q) (hP : ∀ s, T.Inv s → P' s → P s) : T.Triple t n P' x Q :=
  h.conseq hP (fun _ _ _ h => h)

theorem Triple.fact {p : Prop} {x : Code S ε α} {Q : Except ε α → S.State → Prop}
    (h : p → T.Triple t (n + 1) P x Q) : T.Triple t (n + 1) (fun s => P s ∧ p) x Q := by
  intro c hc hs
  cases c with
  | held s m => exact h hs.2.2 (.held s m) hc ⟨hs.1, hs.2.1⟩
  | free o => cases hc

theorem Triple.result {Q : Except ε α → S.State → Prop} (r : Except ε α) (h : ∀ s, T.Inv s → P s → Q r s) :
    T.Triple t n P (Code.result r) Q :=
  fun _ hc hs => ⟨hc, hs.mono h⟩

theorem Triple.pure {Q : Except ε α → S.State → Prop} (a : α) (h : ∀ s, T.Inv s → P s → Q (.ok a) s) :
    T.Triple t n P (Pure.pure a : Code S ε α) Q :=
  Triple.result (.ok a) h

theorem Triple.throw {Q : Except ε α → S.State → Prop} (e : ε) (h : ∀ s, T.Inv s → P s → Q (.error e) s) :
    T.Triple t n P (throw e : Code S ε α) Q :=
  Triple.result (.error e) h

theorem Triple.bind {x : Code S ε α} {k : α → Code S ε β} {R : α → S.State → Prop} {Q : Except ε β → S.State → Prop}
    (hx : T.Triple t n P x (fun r => match r with | .ok a => R a | .error e => Q (.error e)))
    (hk : ∀ a, T.Triple t n (R a) (k a) Q) : T.Triple t n P (x >>= k) Q := by
  intro c hc hs
  apply wp_bind
  apply wp_mono _ (hx c hc hs)
  intro r d hd
  cases r with
  | ok a => exact hk a d hd.1 hd.2
  | error e => exact hd

theorem Triple.attempt {x : Code S ε α} {Q : Except ε α → S.State → Prop} {Q' : Except ε (Except ε α) → S.State → Prop}
    (h : T.Triple t n P x Q) (hQ : ∀ r s, T.Inv s → Q r s → Q' (.ok r) s) : T.Triple t n P (Code.attempt x) Q' := by
  intro c hc hs
  apply wp_bind
  apply wp_mono _ (h c hc hs)
  intro r d hd
  exact ⟨hd.1, hd.2.mono (hQ r)⟩

theorem Triple.read {Q : Except ε S.State → S.State → Prop} (h : ∀ s, T.Inv s → P s → Q (.ok s) s) :
    T.Triple t (n + 1) P Code.read Q := by
  intro c hc hs
  cases c with
  | held s m => exact ⟨hc, hs.1, h s hs.1 hs.2⟩
  | free o => cases hc

theorem Triple.peek {Q : Except ε S.State → S.State → Prop} (h : ∀ s s', T.Inv s → T.Inv s' → P s → Q (.ok s') s) :
    T.Triple t n P Code.read Q := by
  intro c hc hs
  cases c with
  | held s m => exact ⟨hc, hs.1, h s s hs.1 hs.1 hs.2⟩
  | free o => exact fun s' hs' => ⟨hc, hs.mono fun s hI hP => h s s' hI hs' hP⟩

theorem Triple.ask {q : S.Ask} {Q : Except ε (S.Ans q) → S.State → Prop} (hq : T.AskMay q → T.AskOk q n)
    (h : T.AskMay q → ∀ a s, T.Inv s → P s → Q (.ok a) s) : T.Triple t n P (Code.ask q) Q := by
  intro c hc hs hmay
  refine ⟨hc ▸ hq hmay, ?_⟩
  intro a
  exact ⟨hc, hs.mono (h hmay a)⟩

theorem Triple.act {a : S.Act} {Q : Except ε (S.Res a) → S.State → Prop}
    (h : ∀ s, T.Inv s → P s → T.ActOk t a s ∧ Q (.ok (S.run a s).1) (S.run a s).2) :
    T.Triple t (n + 1) P (Code.act a) Q := by
  intro c hc hs
  cases c with
  | held s m =>
    obtain ⟨hok, hQ⟩ := h s hs.1 hs.2
    exact ⟨hok, hc, T.inv_act hs.1 hok, hQ⟩
  | free o => cases hc

theorem Triple.down {g : S.Gate} {Q : Except ε Bool → S.State → Prop} (h : ∀ b s, T.Inv s → P s → Q (.ok b) s) :
    T.Triple t n P (Code.down g) Q :=
  fun _ hc hs b => ⟨hc, hs.mono (h b)⟩

theorem Triple.up {g : S.Gate} {Q : Except ε Unit → S.State → Prop} (h : ∀ s, T.Inv s → P s → Q (.ok ()) s) :
    T.Triple t n P (Code.up g) Q :=
  fun _ hc hs => ⟨hc, hs.mono h⟩

theorem wp_tryFinally {x : Code S ε α} {fin : Code S ε Unit} {Q : Except ε α → Ctx S → Prop} {c : Ctx S}
    (h : T.wp t x.run
      (fun r d => T.wp t fin.run (fun f => match f with | .ok _ => Q r | .error e => Q (.error e)) d) c) :
    T.wp t (tryFinally x fin).run Q c := by
  apply wp_bind
  apply wp_bind
  apply wp_mono _ h
  intro r d hd
  apply wp_bind
  apply wp_mono _ hd
  intro f e he
  cases f with
  | ok _ => exact he
  | error _ => exact he

theorem Triple.locked {w : S.Window} {x : Code S ε α} {Q : Except ε α → S.State → Prop} (hP : T.Stable t P)
    (h : T.Triple t (n + 1) P x Q) : T.Triple t n P (Code.locked w x) Q := by
  have hin : ∀ d : Ctx S, d.depth = n + 1 → T.Sat P d →
      T.wp t (tryFinally x (unlock w)).run (fun r c => c.depth = n ∧ T.Sat (Q r) c) d := by
    intro d hd hs
    apply wp_tryFinally
    apply wp_mono _ (h d hd hs)
    rintro r e ⟨he, hr⟩
    cases e with
    | held s m =>
      have hm : m = n := by simpa [Ctx.depth] using he
      subst m
      cases n with
      | zero => exact ⟨rfl, hr⟩
      | succ n => exact ⟨rfl, hr⟩
    | free o => cases he
  intro c hc hs
  subst n
  cases c with
  | held s m => exact hin (.held s (m + 1)) rfl hs
  | free o => exact fun s hback => hin (.held s 0) rfl (hP.back hs hback)

theorem Triple.unlocked {w : S.Window} {x : Code S ε α} {Q : Except ε α → S.State → Prop}
    (h : T.Triple t 0 P x Q) (hQ : ∀ r, T.Stable t (Q r)) : T.Triple t (n + 1) P (Code.unlocked w x) Q := by
  intro c hc hs
  cases c with
  | free o => cases hc
  | held s m =>
    apply wp_tryFinally
    apply wp_mono _ (h (.free (some (w, s))) rfl hs)
    rintro r e ⟨he, hr⟩
    cases e with
    | held s' k => cases he
    | free o => exact fun s' hback => ⟨hc, (hQ r).back hr hback⟩

theorem Triple.released {w : S.Window} {x : Code S ε α} {Q : Except ε α → S.State → Prop}
    (h : T.Triple t n P x Q) (hQ : ∀ r, T.Stable t (Q r)) : T.Triple t (n + 1) P (Code.released w x) Q := by
  have hin : ∀ d : Ctx S, d.depth = n → T.Sat P d →
      T.wp t (tryFinally x Code.lock).run (fun r c => c.depth = n + 1 ∧ T.Sat (Q r) c) d := by
    intro d hd hs
    apply wp_tryFinally
    apply wp_mono _ (h d hd hs)
    rintro r e ⟨he, hr⟩
    rw [← he]
    cases e with
    | held s m => exact ⟨rfl, hr⟩
    | free o => exact fun s hback => ⟨rfl, (hQ r).back hr hback⟩
  intro c hc hs
  cases c with
  | free o => cases hc
  | held s m =>
    have hm : m = n := by simpa [Ctx.depth] using hc
    subst m
    cases n with
    | zero => exact hin (.free (some (w, s))) rfl hs
    | succ n => exact hin (.held s n) rfl hs

theorem Triple.forever {body : β → Code S ε (β ⊕ γ)} {b : β} {I : β → S.State → Prop} {Q : Except ε γ → S.State → Prop}
    (hb : ∀ s, T.Inv s → P s → I b s)
    (h : ∀ b, T.Triple t n (I b) (body b) (fun r s => Sum.elim (fun b => I b s) (fun g => Q g s) (exit r))) :
    T.Triple t n P (Code.forever body b) Q := by
  intro c hc hs
  refine ⟨fun b c => c.depth = n ∧ T.Sat (I b) c, ⟨hc, hs.mono hb⟩, ?_⟩
  rintro b d ⟨hd, hI⟩
  apply wp_bind
  apply wp_mono _ (h b d hd hI)
  rintro r e ⟨he, hr⟩
  unfold wp
  cases r with
  | ok r =>
    cases r with
    | inl b => exact ⟨he, hr⟩
    | inr g => exact ⟨he, hr⟩
  | error e => exact ⟨he, hr⟩

theorem Triple.nested {w : S.Window} {x : Code S ε α} {Q : Except ε α → S.State → Prop} (hP : T.Stable t P) {d : ℕ}
    (h : T.Triple t (n + d) P x Q) : T.Triple t n P (Code.nested w d x) Q := by
  induction d generalizing n with
  | zero => exact h
  | succ d ih =>
    apply Triple.locked hP
    apply ih
    rwa [Nat.add_right_comm]

end Spec

end Monitor
