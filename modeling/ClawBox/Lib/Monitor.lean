import ClawBox.Lib.Transition
import Mathlib.Logic.Function.Basic
import Mathlib.Tactic.Tauto

namespace Monitor

structure Sig where
  State : Type
  Ask : Type
  Ans : Ask → Type
  Act : Type
  Res : Act → Type
  run : (a : Act) → State → Res a × State
  Window : Type
  Gate : Type
  [gateEq : DecidableEq Gate]

instance (S : Sig) : DecidableEq S.Gate := S.gateEq

abbrev Thread := ℕ

inductive Prog (S : Sig) : Type → Type 1
  | ret {α : Type} (x : α) : Prog S α
  | get {α : Type} (k : S.State → Prog S α) : Prog S α
  | ask {α : Type} (q : S.Ask) (k : S.Ans q → Prog S α) : Prog S α
  | act {α : Type} (a : S.Act) (k : S.Res a → Prog S α) : Prog S α
  | lock {α : Type} (k : Prog S α) : Prog S α
  | unlock {α : Type} (w : S.Window) (k : Prog S α) : Prog S α
  | save {α : Type} (w : S.Window) (k : ℕ → Prog S α) : Prog S α
  | restore {α : Type} (n : ℕ) (k : Prog S α) : Prog S α
  | down {α : Type} (g : S.Gate) (k : Bool → Prog S α) : Prog S α
  | up {α : Type} (g : S.Gate) (k : Prog S α) : Prog S α
  | loop {α β γ : Type} (body : β → Prog S (β ⊕ γ)) (b : β) (k : γ → Prog S α) : Prog S α

variable {S : Sig}

namespace Prog

def bind {α δ : Type} : Prog S α → (α → Prog S δ) → Prog S δ
  | ret x, f => f x
  | get k, f => get fun s => (k s).bind f
  | ask q k, f => ask q fun a => (k a).bind f
  | act a k, f => act a fun r => (k r).bind f
  | lock k, f => lock (k.bind f)
  | unlock w k, f => unlock w (k.bind f)
  | save w k, f => save w fun n => (k n).bind f
  | restore n k, f => restore n (k.bind f)
  | down g k, f => down g fun b => (k b).bind f
  | up g k, f => up g (k.bind f)
  | loop body b k, f => loop body b fun c => (k c).bind f

instance : Monad (Prog S) where
  pure := ret
  bind := bind

def isRet {α : Type} : Prog S α → Bool
  | ret _ => true
  | _ => false

end Prog

section Machine

variable (S) in
/-- The shared part of a machine; the depth of its owner is counted from zero. -/
structure Core where
  shared : S.State
  owner : Option (Thread × ℕ) := none
  windows : Thread → Option S.Window := fun _ => none
  gates : S.Gate → ℕ

def Core.depth (σ : Core S) (t : Thread) : ℕ :=
  match σ.owner with
  | some (u, n) => if u = t then n + 1 else 0
  | none => 0

variable (S) in
structure Config where
  core : Core S
  threads : Thread → Option (Prog S Unit) := fun _ => none

inductive Event (S : Sig) (C : Type)
  | silent
  | called (c : C)
  | asked (q : S.Ask) (depth : ℕ)
  | acted (a : S.Act) (before : S.State)

inductive Move (S : Sig) (C : Type)
  | call (c : C)
  | go (answers : (q : S.Ask) → S.Ans q)

def Core.take (σ : Core S) (t : Thread) (n : ℕ) : Core S :=
  { σ with owner := some (t, n), windows := Function.update σ.windows t none }

def Core.leave (σ : Core S) (t : Thread) (w : S.Window) : Core S :=
  { σ with owner := none, windows := Function.update σ.windows t (some w) }

/-- A gate that is not open lets a caller pass only when its waiting time is over. -/
def advance {α C : Type} (σ : Core S) (t : Thread) (answers : (q : S.Ask) → S.Ans q) :
    Prog S α → Option (Core S × Event S C × Prog S α)
  | .ret _ => none
  | .get k => some (σ, .silent, k σ.shared)
  | .ask q k => some (σ, .asked q (σ.depth t), k (answers q))
  | .act a k =>
    if σ.depth t = 0 then none
    else some ({ σ with shared := (S.run a σ.shared).2 }, .acted a σ.shared, k (S.run a σ.shared).1)
  | .lock k =>
    match σ.owner with
    | none => some (σ.take t 0, .silent, k)
    | some (u, n) => if u = t then some ({ σ with owner := some (t, n + 1) }, .silent, k) else none
  | .unlock w k =>
    match σ.owner with
    | none => none
    | some (u, 0) => if u = t then some (σ.leave t w, .silent, k) else none
    | some (u, n + 1) => if u = t then some ({ σ with owner := some (t, n) }, .silent, k) else none
  | .save w k =>
    match σ.owner with
    | none => none
    | some (u, n) => if u = t then some (σ.leave t w, .silent, k n) else none
  | .restore n k =>
    match σ.owner with
    | none => some (σ.take t n, .silent, k)
    | some _ => none
  | .down g k =>
    if σ.gates g = 0 then some (σ, .silent, k false)
    else some ({ σ with gates := Function.update σ.gates g (σ.gates g - 1) }, .silent, k true)
  | .up g k => some ({ σ with gates := Function.update σ.gates g (σ.gates g + 1) }, .silent, k)
  | .loop body b k => some (σ, .silent, (body b).bind (Sum.elim (fun b => .loop body b k) k))

variable {C : Type}

def Config.next (code : Thread → C → Prog S Unit) (σ : Config S) :
    Thread × Move S C → Option (Config S × Event S C)
  | (t, .call c) =>
    match σ.threads t with
    | none => some (⟨σ.core, Function.update σ.threads t (some (code t c))⟩, .called c)
    | some _ => none
  | (t, .go answers) =>
    match σ.threads t with
    | none => none
    | some p =>
      match advance σ.core t answers p with
      | some (core, e, p) => some (⟨core, Function.update σ.threads t (some p)⟩, e)
      | none => if p.isRet then some (⟨σ.core, Function.update σ.threads t none⟩, .silent) else none

def Config.Idle (init : S.State → Prop) (gates : S.Gate → ℕ) (σ : Config S) : Prop :=
  init σ.core.shared ∧ σ.core.owner = none ∧ σ.core.gates = gates ∧ ∀ t, σ.threads t = none

def system (code : Thread → C → Prog S Unit) (init : S.State → Prop) (gates : S.Gate → ℕ) :
    Transition.System (Config S) ((Thread × Move S C) × Event S C) :=
  .ofNext (Config.Idle init gates) (Config.next code)

end Machine

variable (S) in
/-- What every act and question of every thread is to satisfy, and what a thread may count on while it is suspended in
a window. `AskMay` and `Meets` are conditions on the run. -/
structure Spec where
  Inv : S.State → Prop
  ActOk : Thread → S.Act → S.State → Prop
  AskOk : S.Ask → ℕ → Prop
  AskMay : S.Ask → Prop
  Meets : S.Act → S.State → S.Window → Prop
  Rely : Thread → S.Window → S.State → S.State → Prop
  inv_act : ∀ {t a s}, Inv s → ActOk t a s → Inv (S.run a s).2
  rely_refl : ∀ {u w s}, Inv s → Rely u w s s
  rely_act : ∀ {t u a w s₀ s}, t ≠ u → Inv s → ActOk t a s → Meets a s w → Rely u w s₀ s → Rely u w s₀ (S.run a s).2

inductive Ctx (S : Sig)
  | held (s : S.State) (n : ℕ)
  | free (left : Option (S.Window × S.State))

def Ctx.depth : Ctx S → ℕ
  | .held _ n => n + 1
  | .free _ => 0

namespace Spec

variable (T : Spec S) (t : Thread)

def Back : Option (S.Window × S.State) → S.State → Prop
  | none, s => T.Inv s
  | some (w, s₀), s => T.Inv s ∧ T.Rely t w s₀ s

def wp {α : Type} : Prog S α → (α → Ctx S → Prop) → Ctx S → Prop
  | .ret x, Q, c => Q x c
  | .get k, Q, .held s n => wp (k s) Q (.held s n)
  | .get k, Q, .free o => ∀ s, T.Inv s → wp (k s) Q (.free o)
  | .ask q k, Q, c => T.AskMay q → T.AskOk q c.depth ∧ ∀ a, wp (k a) Q c
  | .act a k, Q, .held s n => T.ActOk t a s ∧ wp (k (S.run a s).1) Q (.held (S.run a s).2 n)
  | .act _ _, _, .free _ => False
  | .lock k, Q, .held s n => wp k Q (.held s (n + 1))
  | .lock k, Q, .free o => ∀ s, T.Back t o s → wp k Q (.held s 0)
  | .unlock w k, Q, .held s 0 => wp k Q (.free (some (w, s)))
  | .unlock _ k, Q, .held s (n + 1) => wp k Q (.held s n)
  | .unlock _ _, _, .free _ => False
  | .save w k, Q, .held s n => wp (k n) Q (.free (some (w, s)))
  | .save _ _, _, .free _ => False
  | .restore _ _, _, .held _ _ => False
  | .restore n k, Q, .free o => ∀ s, T.Back t o s → wp k Q (.held s n)
  | .down _ k, Q, c => ∀ b, wp (k b) Q c
  | .up _ k, Q, c => wp k Q c
  | .loop (β := β) body b k, Q, c => ∃ I : β → Ctx S → Prop, I b c ∧ ∀ b c, I b c →
      wp (body b) (fun r c => Sum.elim (fun b => I b c) (fun g => wp (k g) Q c) r) c

variable {T : Spec S} {t : Thread}

theorem wp_mono {α : Type} {p : Prog S α} {Q Q' : α → Ctx S → Prop} {c : Ctx S} (hQ : ∀ x c, Q x c → Q' x c)
    (h : T.wp t p Q c) : T.wp t p Q' c := by
  induction p generalizing c with
  | ret x => exact hQ x c h
  | get k ih =>
    cases c with
    | held s n => exact ih s hQ h
    | free o => exact fun s hs => ih s hQ (h s hs)
  | ask q k ih => exact fun hq => ⟨(h hq).1, fun a => ih a hQ ((h hq).2 a)⟩
  | act a k ih =>
    cases c with
    | held s n => exact ⟨h.1, ih _ hQ h.2⟩
    | free o => exact h
  | lock k ih =>
    cases c with
    | held s n => exact ih hQ h
    | free o => exact fun s hs => ih hQ (h s hs)
  | unlock w k ih =>
    cases c with
    | held s n =>
      cases n with
      | zero => exact ih hQ h
      | succ n => exact ih hQ h
    | free o => exact h
  | save w k ih =>
    cases c with
    | held s n => exact ih n hQ h
    | free o => exact h
  | restore n k ih =>
    cases c with
    | held s m => exact h
    | free o => exact fun s hs => ih hQ (h s hs)
  | down g k ih => exact fun b => ih b hQ (h b)
  | up g k ih => exact ih hQ h
  | loop body b k ihb ihk =>
    obtain ⟨I, hI, hbody⟩ := h
    refine ⟨I, hI, ?_⟩
    intro b c hc
    apply ihb b _ (hbody b c hc)
    intro r c hr
    cases r with
    | inl b => exact hr
    | inr g => exact ihk g hQ hr

theorem wp_bind {α δ : Type} {p : Prog S α} {f : α → Prog S δ} {Q : δ → Ctx S → Prop} {c : Ctx S}
    (h : T.wp t p (fun x c => T.wp t (f x) Q c) c) : T.wp t (p.bind f) Q c := by
  induction p generalizing c with
  | ret x => exact h
  | get k ih =>
    cases c with
    | held s n => exact ih s h
    | free o => exact fun s hs => ih s (h s hs)
  | ask q k ih => exact fun hq => ⟨(h hq).1, fun a => ih a ((h hq).2 a)⟩
  | act a k ih =>
    cases c with
    | held s n => exact ⟨h.1, ih _ h.2⟩
    | free o => exact h
  | lock k ih =>
    cases c with
    | held s n => exact ih h
    | free o => exact fun s hs => ih (h s hs)
  | unlock w k ih =>
    cases c with
    | held s n =>
      cases n with
      | zero => exact ih h
      | succ n => exact ih h
    | free o => exact h
  | save w k ih =>
    cases c with
    | held s n => exact ih n h
    | free o => exact h
  | restore n k ih =>
    cases c with
    | held s m => exact h
    | free o => exact fun s hs => ih (h s hs)
  | down g k ih => exact fun b => ih b (h b)
  | up g k ih => exact ih h
  | loop body b k _ ihk =>
    obtain ⟨I, hI, hbody⟩ := h
    refine ⟨I, hI, ?_⟩
    intro b c hc
    apply wp_mono _ (hbody b c hc)
    intro r c hr
    cases r with
    | inl b => exact hr
    | inr g => exact ihk g hr

def Fits (T : Spec S) (t : Thread) (σ : Core S) : Ctx S → Prop
  | .held s n => σ.owner = some (t, n) ∧ s = σ.shared
  | .free none => σ.depth t = 0
  | .free (some (w, s₀)) => σ.depth t = 0 ∧ σ.windows t = some w ∧ T.Rely t w s₀ σ.shared

theorem Fits.depth {σ : Core S} {c : Ctx S} (h : T.Fits t σ c) : c.depth = σ.depth t := by
  cases c with
  | held s n => simp [Ctx.depth, Core.depth, h.1]
  | free o =>
    cases o with
    | none => exact h.symm
    | some o => exact h.1.symm

theorem Fits.back {σ : Core S} {o : Option (S.Window × S.State)} (hI : T.Inv σ.shared) (h : T.Fits t σ (.free o)) :
    T.Back t o σ.shared := by
  cases o with
  | none => exact hI
  | some o => exact ⟨hI, h.2.2⟩

variable {C : Type}

def EventOk (T : Spec S) (t : Thread) : Event S C → Prop
  | .asked q n => T.AskOk q n
  | .acted a s => T.ActOk t a s
  | _ => True

/-- The condition on the run: no act falls into a window that it may not meet. -/
def EventMay (T : Spec S) (CallMay : C → Prop) (σ : Core S) (t : Thread) : Event S C → Prop
  | .silent => True
  | .called c => CallMay c
  | .asked q _ => T.AskMay q
  | .acted a s => ∀ u w, u ≠ t → σ.windows u = some w → T.Meets a s w

theorem depth_owner {σ : Core S} {n : ℕ} (h : σ.owner = some (t, n)) : σ.depth t = n + 1 := by
  simp [Core.depth, h]

theorem Fits.held_owner {σ : Core S} {c : Ctx S} {n : ℕ} (h : T.Fits t σ c) (ho : σ.owner = some (t, n)) :
    c = .held σ.shared n := by
  have hd := h.depth.trans (depth_owner ho)
  cases c with
  | held s m =>
    have hm : m = n := by simpa [Ctx.depth] using hd
    rw [h.2, hm]
  | free o => simp [Ctx.depth] at hd

theorem Fits.free_owner {σ : Core S} {c : Ctx S} (h : T.Fits t σ c) (ho : σ.owner = none) : ∃ o, c = .free o := by
  cases c with
  | held s m =>
    have howner := h.1
    simp [ho] at howner
  | free o => exact ⟨o, rfl⟩

theorem Fits.take {σ : Core S} (n : ℕ) : T.Fits t (σ.take t n) (.held σ.shared n) := ⟨rfl, rfl⟩

theorem Fits.leave {σ : Core S} (w : S.Window) (hI : T.Inv σ.shared) :
    T.Fits t (σ.leave t w) (.free (some (w, σ.shared))) := by
  refine ⟨rfl, ?_, T.rely_refl hI⟩
  simp [Core.leave]

theorem Fits.other {σ σ' : Core S} {u : Thread} {d : Ctx S} (h : T.Fits u σ d) (hdepth : σ.depth u = 0)
    (hdepth' : σ'.depth u = 0) (hw : σ'.windows u = σ.windows u)
    (hrely : ∀ w s₀, σ.windows u = some w → T.Rely u w s₀ σ.shared → T.Rely u w s₀ σ'.shared) : T.Fits u σ' d := by
  cases d with
  | held s n => simp [depth_owner h.1] at hdepth
  | free o =>
    cases o with
    | none => exact hdepth'
    | some o => exact ⟨hdepth', hw.trans h.2.1, hrely _ _ h.2.1 h.2.2⟩

theorem Fits.same {σ σ' : Core S} {u : Thread} {d : Ctx S} (h : T.Fits u σ d) (ho : σ'.owner = σ.owner)
    (hs : σ'.shared = σ.shared) (hw : σ'.windows u = σ.windows u) : T.Fits u σ' d := by
  cases d with
  | held s n => exact ⟨ho.trans h.1, h.2.trans hs.symm⟩
  | free o =>
    have hdepth : σ'.depth u = σ.depth u := by simp [Core.depth, ho]
    cases o with
    | none => exact hdepth.trans h
    | some o => exact ⟨hdepth.trans h.1, hw.trans h.2.1, hs ▸ h.2.2⟩

theorem depth_other {σ : Core S} {u : Thread} {n : ℕ} (ho : σ.owner = some (t, n)) (h : u ≠ t) : σ.depth u = 0 := by
  simp [Core.depth, ho, Ne.symm h]

theorem depth_none {σ : Core S} (u : Thread) (ho : σ.owner = none) : σ.depth u = 0 := by
  simp [Core.depth, ho]

def Sound (T : Spec S) (t : Thread) {α : Type} (Q : α → Ctx S → Prop) (σ σ' : Core S) (e : Event S C) (p : Prog S α) :
    Prop :=
  T.EventOk t e ∧ T.Inv σ'.shared ∧ (∃ c, T.Fits t σ' c ∧ T.wp t p Q c) ∧
    ∀ u d, u ≠ t → T.Fits u σ d → T.Fits u σ' d

section Step

variable {α : Type} {Q : α → Ctx S → Prop} {σ : Core S} {c : Ctx S}

theorem sound_same {e : Event S C} {p : Prog S α} (hI : T.Inv σ.shared) (he : T.EventOk t e) (hf : T.Fits t σ c)
    (hp : T.wp t p Q c) (gates : S.Gate → ℕ) : T.Sound t Q σ { σ with gates } e p := by
  refine ⟨he, hI, ⟨c, hf.same rfl rfl rfl, hp⟩, ?_⟩
  intro u d _ hd
  exact hd.same rfl rfl rfl

theorem sound_take {n : ℕ} {p : Prog S α} (hI : T.Inv σ.shared) (ho : σ.owner = none)
    (hp : T.wp t p Q (.held σ.shared n)) : T.Sound t Q σ (σ.take t n) (.silent : Event S C) p := by
  refine ⟨trivial, hI, ⟨_, Fits.take n, hp⟩, ?_⟩
  intro u d hu hd
  apply hd.other (depth_none u ho) (depth_other rfl hu)
  · exact Function.update_of_ne hu _ _
  · exact fun w s₀ _ h => h

theorem sound_leave {n : ℕ} {w : S.Window} {p : Prog S α} (hI : T.Inv σ.shared) (ho : σ.owner = some (t, n))
    (hp : T.wp t p Q (.free (some (w, σ.shared)))) : T.Sound t Q σ (σ.leave t w) (.silent : Event S C) p := by
  refine ⟨trivial, hI, ⟨_, Fits.leave w hI, hp⟩, ?_⟩
  intro u d hu hd
  apply hd.other (depth_other ho hu) (depth_none u rfl)
  · exact Function.update_of_ne hu _ _
  · exact fun w s₀ _ h => h

theorem sound_depth {m n : ℕ} {p : Prog S α} (hI : T.Inv σ.shared) (ho : σ.owner = some (t, m))
    (hp : T.wp t p Q (.held σ.shared n)) : T.Sound t Q σ { σ with owner := some (t, n) } (.silent : Event S C) p := by
  refine ⟨trivial, hI, ⟨.held σ.shared n, ⟨rfl, rfl⟩, hp⟩, ?_⟩
  intro u d hu hd
  refine hd.other (depth_other ho hu) (depth_other (n := n) rfl hu) ?_ ?_
  · rfl
  · exact fun w s₀ _ h => h

theorem sound_act {n : ℕ} {a : S.Act} {p : Prog S α} (hI : T.Inv σ.shared) (ho : σ.owner = some (t, n))
    (ha : T.ActOk t a σ.shared) (hmeets : ∀ u w, u ≠ t → σ.windows u = some w → T.Meets a σ.shared w)
    (hp : T.wp t p Q (.held (S.run a σ.shared).2 n)) :
    T.Sound t Q σ { σ with shared := (S.run a σ.shared).2 } (.acted a σ.shared : Event S C) p := by
  refine ⟨ha, T.inv_act hI ha, ⟨.held _ n, ⟨ho, rfl⟩, hp⟩, ?_⟩
  intro u d hu hd
  refine hd.other (depth_other ho hu) (depth_other (n := n) ho hu) ?_ ?_
  · rfl
  · intro w s₀ hw hrely
    exact T.rely_act (Ne.symm hu) hI ha (hmeets u w hu hw) hrely

theorem advance_sound {answers : (q : S.Ask) → S.Ans q} {CallMay : C → Prop} {p p' : Prog S α} {σ' : Core S}
    {e : Event S C} (hI : T.Inv σ.shared) (hf : T.Fits t σ c) (hp : T.wp t p Q c)
    (h : advance σ t answers p = some (σ', e, p')) (hmay : T.EventMay CallMay σ t e) : T.Sound t Q σ σ' e p' := by
  cases p with
  | ret x => simp [advance] at h
  | get k =>
    simp only [advance, Option.some.injEq, Prod.mk.injEq] at h
    obtain ⟨rfl, rfl, rfl⟩ := h
    refine sound_same hI ?_ hf ?_ σ.gates
    · trivial
    · cases c with
      | held s n => exact hf.2 ▸ hp
      | free o => exact hp _ hI
  | ask q k =>
    simp only [advance, Option.some.injEq, Prod.mk.injEq] at h
    obtain ⟨rfl, rfl, rfl⟩ := h
    have hq := hp hmay
    rw [hf.depth] at hq
    refine sound_same hI ?_ hf (hq.2 _) σ.gates
    exact hq.1
  | act a k =>
    simp only [advance] at h
    split_ifs at h with hd
    simp only [Option.some.injEq, Prod.mk.injEq] at h
    obtain ⟨rfl, rfl, rfl⟩ := h
    cases c with
    | held s n =>
      obtain ⟨ho, rfl⟩ := hf
      exact sound_act hI ho hp.1 hmay hp.2
    | free o => exact absurd hp id
  | lock k =>
    simp only [advance] at h
    split at h
    · rename_i ho
      simp only [Option.some.injEq, Prod.mk.injEq] at h
      obtain ⟨rfl, rfl, rfl⟩ := h
      obtain ⟨o, rfl⟩ := hf.free_owner ho
      exact sound_take hI ho (hp _ (hf.back hI))
    · rename_i u n ho
      split_ifs at h with hu
      subst u
      simp only [Option.some.injEq, Prod.mk.injEq] at h
      obtain ⟨rfl, rfl, rfl⟩ := h
      rw [hf.held_owner ho] at hp
      exact sound_depth hI ho hp
  | unlock w k =>
    simp only [advance] at h
    split at h
    · cases h
    · rename_i u ho
      split_ifs at h with hu
      subst u
      simp only [Option.some.injEq, Prod.mk.injEq] at h
      obtain ⟨rfl, rfl, rfl⟩ := h
      rw [hf.held_owner ho] at hp
      exact sound_leave hI ho hp
    · rename_i u n ho
      split_ifs at h with hu
      subst u
      simp only [Option.some.injEq, Prod.mk.injEq] at h
      obtain ⟨rfl, rfl, rfl⟩ := h
      rw [hf.held_owner ho] at hp
      exact sound_depth hI ho hp
  | save w k =>
    simp only [advance] at h
    split at h
    · cases h
    · rename_i u n ho
      split_ifs at h with hu
      subst u
      simp only [Option.some.injEq, Prod.mk.injEq] at h
      obtain ⟨rfl, rfl, rfl⟩ := h
      rw [hf.held_owner ho] at hp
      exact sound_leave hI ho hp
  | restore n k =>
    simp only [advance] at h
    split at h
    · rename_i ho
      simp only [Option.some.injEq, Prod.mk.injEq] at h
      obtain ⟨rfl, rfl, rfl⟩ := h
      obtain ⟨o, rfl⟩ := hf.free_owner ho
      exact sound_take hI ho (hp _ (hf.back hI))
    · cases h
  | down g k =>
    simp only [advance] at h
    split_ifs at h
    · simp only [Option.some.injEq, Prod.mk.injEq] at h
      obtain ⟨rfl, rfl, rfl⟩ := h
      refine sound_same hI ?_ hf (hp false) σ.gates
      trivial
    · simp only [Option.some.injEq, Prod.mk.injEq] at h
      obtain ⟨rfl, rfl, rfl⟩ := h
      refine sound_same hI ?_ hf (hp true) _
      trivial
  | up g k =>
    simp only [advance, Option.some.injEq, Prod.mk.injEq] at h
    obtain ⟨rfl, rfl, rfl⟩ := h
    refine sound_same hI ?_ hf hp _
    trivial
  | loop body b k =>
    simp only [advance, Option.some.injEq, Prod.mk.injEq] at h
    obtain ⟨rfl, rfl, rfl⟩ := h
    refine sound_same hI ?_ hf ?_ σ.gates
    · trivial
    · obtain ⟨I, hb, hbody⟩ := hp
      apply wp_bind
      apply wp_mono _ (hbody b c hb)
      intro r d hr
      cases r with
      | inl b => exact ⟨I, hr, hbody⟩
      | inr g => exact hr

end Step

structure Good (T : Spec S) (σ : Config S) : Prop where
  inv : T.Inv σ.core.shared
  ready : ∀ t p, σ.threads t = some p → ∃ c, T.Fits t σ.core c ∧ T.wp t p (fun _ c => c.depth = 0) c
  idle : ∀ t, σ.threads t = none → σ.core.depth t = 0

theorem Good.put {σ : Config S} {core : Core S} {x : Option (Prog S Unit)} (hg : T.Good σ) (hI : T.Inv core.shared)
    (hother : ∀ u d, u ≠ t → T.Fits u σ.core d → T.Fits u core d)
    (hsome : ∀ p, x = some p → ∃ c, T.Fits t core c ∧ T.wp t p (fun _ c => c.depth = 0) c)
    (hnone : x = none → core.depth t = 0) : T.Good ⟨core, Function.update σ.threads t x⟩ := by
  refine ⟨hI, ?_, ?_⟩
  · intro u p hu
    by_cases hut : u = t
    · subst u
      exact hsome p (by simpa using hu)
    · obtain ⟨d, hd, hp⟩ := hg.ready u p (by simpa [Function.update_of_ne hut] using hu)
      exact ⟨d, hother u d hut hd, hp⟩
  · intro u hu
    by_cases hut : u = t
    · subst u
      exact hnone (by simpa using hu)
    · exact hother u (.free none) hut (hg.idle u (by simpa [Function.update_of_ne hut] using hu))

theorem Good.next {code : Thread → C → Prog S Unit} {CallMay : C → Prop}
    (hcode : ∀ t c, CallMay c → T.wp t (code t c) (fun _ c => c.depth = 0) (.free none)) {σ σ' : Config S} {t : Thread}
    {m : Move S C} {e : Event S C} (hg : T.Good σ) (h : σ.next code (t, m) = some (σ', e))
    (hmay : T.EventMay CallMay σ.core t e) : T.EventOk t e ∧ T.Good σ' := by
  cases m with
  | call c =>
    cases hp : σ.threads t with
    | some p => simp [Config.next, hp] at h
    | none =>
      simp only [Config.next, hp, Option.some.injEq, Prod.mk.injEq] at h
      obtain ⟨rfl, rfl⟩ := h
      refine ⟨trivial, hg.put hg.inv (fun _ _ _ hd => hd) ?_ (fun h => by cases h)⟩
      rintro p ⟨⟩
      exact ⟨.free none, hg.idle t hp, hcode t c hmay⟩
  | go answers =>
    cases hp : σ.threads t with
    | none => simp [Config.next, hp] at h
    | some p =>
      obtain ⟨c, hf, hw⟩ := hg.ready t p hp
      simp only [Config.next, hp] at h
      cases ha : advance (C := C) σ.core t answers p with
      | some r =>
        obtain ⟨core, e', p'⟩ := r
        simp only [ha, Option.some.injEq, Prod.mk.injEq] at h
        obtain ⟨rfl, rfl⟩ := h
        obtain ⟨he, hI, hself, hother⟩ := advance_sound hg.inv hf hw ha hmay
        refine ⟨he, hg.put hI hother ?_ (fun h => by cases h)⟩
        rintro q ⟨⟩
        exact hself
      | none =>
        simp only [ha] at h
        split_ifs at h with hret
        simp only [Option.some.injEq, Prod.mk.injEq] at h
        obtain ⟨rfl, rfl⟩ := h
        refine ⟨trivial, hg.put hg.inv (fun _ _ _ hd => hd) (fun q h => by cases h) ?_⟩
        intro _
        cases p with
        | ret x => exact hf.depth.symm.trans hw
        | _ => simp [Prog.isRet] at hret

theorem Good.start {init : S.State → Prop} {gates : S.Gate → ℕ} (hinit : ∀ s, init s → T.Inv s) {σ : Config S}
    (h : Config.Idle init gates σ) : T.Good σ := by
  obtain ⟨hs, ho, -, hidle⟩ := h
  refine ⟨hinit _ hs, ?_, ?_⟩
  · intro t p hp
    simp [hidle t] at hp
  · intro t _
    exact depth_none t ho

def May (T : Spec S) (CallMay : C → Prop) (σ : Config S) (l : (Thread × Move S C) × Event S C) : Prop :=
  T.EventMay CallMay σ.core l.1.1 l.2

theorem sound {code : Thread → C → Prog S Unit} {init : S.State → Prop} {gates : S.Gate → ℕ} {CallMay : C → Prop}
    (hinit : ∀ s, init s → T.Inv s)
    (hcode : ∀ t c, CallMay c → T.wp t (code t c) (fun _ c => c.depth = 0) (.free none)) {σ₀ σ : Config S}
    {ls : List ((Thread × Move S C) × Event S C)} (hstart : Config.Idle init gates σ₀)
    (hr : Transition.Run ((system code init gates).restrict (T.May CallMay)) σ₀ ls σ) :
    T.Good σ ∧ ∀ l ∈ ls, T.EventOk l.1.1 l.2 := by
  induction hr with
  | nil => exact ⟨Good.start hinit hstart, by simp⟩
  | @snoc σ σ' ls l _ hl ih =>
    obtain ⟨hg, hls⟩ := ih
    obtain ⟨⟨t, m⟩, e⟩ := l
    have hnext := hg.next hcode hl.1 hl.2
    refine ⟨hnext.2, ?_⟩
    intro l hmem
    rcases List.mem_append.mp hmem with hmem | hmem
    · exact hls l hmem
    · rw [List.mem_singleton.mp hmem]
      exact hnext.1

end Spec

end Monitor
