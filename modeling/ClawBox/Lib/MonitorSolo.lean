import ClawBox.Lib.MonitorLogic

namespace Monitor

variable {S : Sig} {ε α β : Type}

def Prog.solo (answers : (q : S.Ask) → S.Ans q) : {α : Type} → Prog S α → S.State → Option (α × S.State)
  | _, .ret x, s => some (x, s)
  | _, .get k, s => (k s).solo answers s
  | _, .ask q k, s => (k (answers q)).solo answers s
  | _, .act a k, s => (k (S.run a s).1).solo answers (S.run a s).2
  | _, .lock k, s => k.solo answers s
  | _, .unlock _ k, s => k.solo answers s
  | _, .save _ k, s => (k 0).solo answers s
  | _, .restore _ k, s => k.solo answers s
  | _, .down _ k, s => (k true).solo answers s
  | _, .up _ k, s => k.solo answers s
  | _, .loop _ _ _, _ => none

theorem Prog.solo_bind (answers : (q : S.Ask) → S.Ans q) (p : Prog S α) (f : α → Prog S β) (s : S.State) :
    (p.bind f).solo answers s = (p.solo answers s).bind fun r => (f r.1).solo answers r.2 := by
  induction p generalizing s with
  | ret x => rfl
  | get k ih => exact ih s f s
  | ask q k ih => exact ih (answers q) f s
  | act a k ih => exact ih _ f _
  | lock k ih => exact ih f s
  | unlock w k ih => exact ih f s
  | save w k ih => exact ih 0 f s
  | restore n k ih => exact ih f s
  | down g k ih => exact ih true f s
  | up g k ih => exact ih f s
  | loop body b k _ ih => rfl

namespace Code

variable (answers : (q : S.Ask) → S.Ans q)

def solo (x : Code S ε α) (s : S.State) : Option (Except ε α × S.State) := x.run.solo answers s

theorem solo_bind (x : Code S ε α) (f : α → Code S ε β) (s : S.State) :
    (x >>= f).solo answers s = (x.solo answers s).bind fun r =>
      match r with
      | (.ok a, t) => (f a).solo answers t
      | (.error e, t) => some (.error e, t) := by
  have h := Prog.solo_bind answers x.run (ExceptT.bindCont f) s
  refine h.trans ?_
  unfold solo
  cases x.run.solo answers s with
  | none => rfl
  | some r =>
    obtain ⟨r, t⟩ := r
    cases r <;> rfl

variable {answers}

def Ends (answers : (q : S.Ask) → S.Ans q) (x : Code S ε α) (s : S.State) (Q : Except ε α → S.State → Prop) : Prop :=
  ∃ r t, x.solo answers s = some (r, t) ∧ Q r t

namespace Ends

variable {s : S.State} {Q : Except ε α → S.State → Prop}

theorem mono {Q' : Except ε α → S.State → Prop} {x : Code S ε α} (h : Ends answers x s Q) (hQ : ∀ r t, Q r t → Q' r t) :
    Ends answers x s Q' := by
  obtain ⟨r, t, hx, hr⟩ := h
  exact ⟨r, t, hx, hQ r t hr⟩

theorem pure {a : α} (h : Q (.ok a) s) : Ends answers (Pure.pure a : Code S ε α) s Q := ⟨_, _, rfl, h⟩

theorem throw {e : ε} (h : Q (.error e) s) : Ends answers (MonadExcept.throw e : Code S ε α) s Q := ⟨_, _, rfl, h⟩

theorem bind {x : Code S ε β} {f : β → Code S ε α}
    (h : Ends answers x s fun r t => match r with
      | .ok a => Ends answers (f a) t Q
      | .error e => Q (.error e) t) : Ends answers (x >>= f) s Q := by
  obtain ⟨r, t, hx, hr⟩ := h
  cases r with
  | ok a =>
    obtain ⟨r', u, hf, hq⟩ := hr
    exact ⟨r', u, by rw [solo_bind, hx]; exact hf, hq⟩
  | error e => exact ⟨.error e, t, by rw [solo_bind, hx]; rfl, hr⟩

theorem read {Q : Except ε S.State → S.State → Prop} (h : Q (.ok s) s) :
    Ends answers (Code.read : Code S ε S.State) s Q :=
  ⟨_, _, rfl, h⟩

theorem ask {q : S.Ask} {Q : Except ε (S.Ans q) → S.State → Prop} (h : Q (.ok (answers q)) s) :
    Ends answers (Code.ask q : Code S ε (S.Ans q)) s Q := ⟨_, _, rfl, h⟩

theorem ite {p : Prop} [Decidable p] {x y : Code S ε α} (hx : p → Ends answers x s Q) (hy : ¬p → Ends answers y s Q) :
    Ends answers (if p then x else y) s Q := by
  split_ifs with h
  · exact hx h
  · exact hy h

theorem unlocked {w : S.Window} {x : Code S ε α} (h : Ends answers x s Q) : Ends answers (Code.unlocked w x) s Q := by
  obtain ⟨r, t, hx, hr⟩ := h
  refine ⟨r, t, ?_, hr⟩
  have hattempt : (attempt x).solo answers s = some (.ok r, t) := by
    refine (Prog.solo_bind answers x.run (fun r => .ret (.ok r : Except ε (Except ε α))) s).trans ?_
    rw [show x.run.solo answers s = some (r, t) from hx]
    rfl
  have hsave : (releaseSave w : Code S ε ℕ).solo answers s = some (.ok 0, s) := rfl
  have hrestore : (acquireRestore 0 : Code S ε Unit).solo answers t = some (.ok (), t) := rfl
  unfold Code.unlocked Code.tryFinally
  rw [solo_bind, hsave]
  dsimp only [Option.bind_some]
  rw [solo_bind, hattempt]
  dsimp only [Option.bind_some]
  rw [solo_bind, hrestore]
  rfl

theorem post {x : Code S ε α} {r : Except ε α} {t : S.State} (h : Ends answers x s Q)
    (hx : x.solo answers s = some (r, t)) : Q r t := by
  obtain ⟨r', t', hx', hq⟩ := h
  rw [hx] at hx'
  obtain ⟨rfl, rfl⟩ := Prod.mk.inj (Option.some.inj hx')
  exact hq

end Ends

end Code

end Monitor
