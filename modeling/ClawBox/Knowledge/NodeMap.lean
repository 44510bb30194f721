import ClawBox.Lib.PyDict
import ClawBox.Lib.Termination
import ClawBox.Lib.Transition
import Mathlib

namespace ClawBox.Knowledge

open Relation Termination Transition

/-- `rest` stands for the fields that a copy takes over and nobody here looks at. -/
structure NodeStats (F ρ : Type*) where
  count : ℕ
  stdLog : F
  stderrLog : F
  shrinkageVar : F
  coldStart : Bool
  rest : ρ
  deriving DecidableEq

/-- The arithmetic of the formula. Numbers that compare equal are not told apart. -/
structure Arithmetic (F : Type*) where
  zero : F
  square : F → F
  median : List F → F
  -- `((count - 1) * own + kappa * prior) / ((count - 1) + kappa)`
  blend : ℕ → F → F → F → F
  ne : F → F → Bool
  eq_of_ne : ∀ a b, ne a b = false → a = b

structure NodeMap (κ F : Type*) [DecidableEq κ] where
  raw : PyDict κ ℕ
  parents : PyDict κ (List κ)
  std : F
  kappa : F
  closed : ∀ k ∈ raw.keys, ∃ ps, parents.get? k = some ps ∧ ∀ p ∈ ps, p ∈ raw.keys
  acyclic : ∀ k, ¬TransGen (fun p k => ∃ ps, parents.get? k = some ps ∧ p ∈ ps) k k

structure Store (κ F ρ : Type*) where
  heap : ℕ → NodeStats F ρ
  next : ℕ
  resolved : PyDict κ ℕ := ∅

namespace Store

variable {κ F ρ : Type*}

def copy (s : Store κ F ρ) (ref : ℕ) : Store κ F ρ :=
  { s with heap := Function.update s.heap s.next (s.heap ref), next := s.next + 1 }

def write (s : Store κ F ρ) (ref : ℕ) (f : NodeStats F ρ → NodeStats F ρ) : Store κ F ρ :=
  { s with heap := Function.update s.heap ref (f (s.heap ref)) }

def memo [DecidableEq κ] (s : Store κ F ρ) (key : κ) (ref : ℕ) : Store κ F ρ :=
  { s with resolved := s.resolved.set key ref }

end Store

section Formula

variable {F ρ : Type*}

def shrinkage (A : Arithmetic F) (node : NodeStats F ρ) (parents : List (NodeStats F ρ)) (globalVar kappa : F) :
    F × Bool :=
  let own := if node.count ≥ 2 then A.square node.stdLog else A.zero
  let parentVars := (parents.filter fun p => !p.coldStart).map NodeStats.shrinkageVar
  if parentVars.isEmpty then
    if node.count ≥ 2 then (own, false) else (globalVar, true)
  else if node.count = 1 then (A.median parentVars, false)
  else (A.blend node.count own kappa (A.median parentVars), false)

end Formula

namespace NodeMap

variable {κ F ρ : Type*} [DecidableEq κ]

def resolve (A : Arithmetic F) (m : NodeMap κ F) (s : Store κ F ρ) (fs : κ) (ref : ℕ) (ps : List κ) : Store κ F ρ :=
  let node := s.heap ref
  let result := shrinkage A node (ps.filterMap fun p => (s.resolved.get? p).map s.heap) (A.square m.std) m.kappa
  let priorChanged := node.count = 1 && A.ne node.stdLog m.std
  if priorChanged || A.ne node.shrinkageVar result.1 || node.coldStart != result.2 then
    let t := (s.copy ref).write s.next fun n => { n with shrinkageVar := result.1, coldStart := result.2 }
    let t := if priorChanged then t.write s.next fun n => { n with stdLog := m.std, stderrLog := m.std } else t
    t.memo fs s.next
  else s.memo fs ref

def resolveLoop (A : Arithmetic F) (m : NodeMap κ F) : ℕ → List κ → Store κ F ρ → Option (Except κ (Store κ F ρ))
  | 0, _, _ => none
  | _ + 1, [], s => some (.ok s)
  | fuel + 1, fs :: pending, s =>
    if (s.resolved.get? fs).isSome then resolveLoop A m fuel pending s
    else
      match m.parents.get? fs with
      | none => some (.error fs)
      | some ps =>
        let missing := ps.filter fun p => (s.resolved.get? p).isNone
        if missing.isEmpty then
          match m.raw.get? fs with
          | none => some (.error fs)
          | some ref => resolveLoop A m fuel pending (m.resolve A s fs ref ps)
        else resolveLoop A m fuel (missing.reverse ++ fs :: pending) s

def getitem (A : Arithmetic F) (m : NodeMap κ F) (s : Store κ F ρ) (key : κ) (fuel : ℕ) :
    Option (Except κ (Store κ F ρ × ℕ)) :=
  if (m.raw.get? key).isNone then some (.error key)
  else
    match resolveLoop A m fuel [key] s with
    | none => none
    | some (.error e) => some (.error e)
    | some (.ok t) =>
      match t.resolved.get? key with
      | none => some (.error key)
      | some ref => some (.ok (t, ref))

def coldLoop (m : NodeMap κ F) (s : Store κ F ρ) : ℕ → List κ → List κ → Option (Except κ Bool)
  | 0, _, _ => none
  | _ + 1, [], _ => some (.ok true)
  | fuel + 1, fs :: pending, seen =>
    if fs ∈ seen then coldLoop m s fuel pending seen
    else
      match m.raw.get? fs with
      | none => some (.error fs)
      | some ref =>
        if (s.heap ref).count ≥ 2 then some (.ok false)
        else
          match m.parents.get? fs with
          | none => some (.error fs)
          | some ps => coldLoop m s fuel (ps.reverse ++ pending) (fs :: seen)

def rawGet (m : NodeMap κ F) (s : Store κ F ρ) (key : κ) (fuel : ℕ) : Option (Except κ (Store κ F ρ × Option ℕ)) :=
  match m.raw.get? key with
  | none => some (.ok (s, none))
  | some ref =>
    match coldLoop m s fuel [key] [] with
    | none => none
    | some (.error e) => some (.error e)
    | some (.ok cold) =>
      if (s.heap ref).coldStart != cold then
        some (.ok ((s.copy ref).write s.next fun n => { n with coldStart := cold }, some s.next))
      else some (.ok (s, some ref))

end NodeMap

inductive Read (κ : Type*)
  | getitem (key : κ)
  | rawGet (key : κ)

namespace NodeMap

variable {κ F ρ : Type*} [DecidableEq κ]

def Start (m : NodeMap κ F) (s : Store κ F ρ) : Prop :=
  s.resolved = ∅ ∧ ∀ k ref, m.raw.get? k = some ref → ref < s.next

def reads (A : Arithmetic F) (m : NodeMap κ F) : System (Store κ F ρ) (Read κ × ℕ) where
  start := m.Start
  step s l t :=
    match l.1 with
    | .getitem k => Returns (m.getitem A s k) (.ok (t, l.2))
    | .rawGet k => Returns (m.rawGet s k) (.ok (t, some l.2))

section Eager

variable (A : Arithmetic F) (m : NodeMap κ F) (heap : ℕ → NodeStats F ρ)

def IsParent (p k : κ) : Prop := ∃ ps, m.parents.get? k = some ps ∧ p ∈ ps

omit A heap in
theorem wf : WellFounded m.IsParent := by
  refine wellFounded_of_acyclic m.parents.keys.toFinset ?_ m.acyclic
  rintro p k ⟨ps, hps, -⟩
  exact List.mem_toFinset.mpr (List.mem_map_of_mem (f := Prod.fst) (PyDict.mem_of_get? hps))

def parentsOf (k : κ) : List κ := (m.parents.get? k).getD []

def nodeOf (k : κ) : NodeStats F ρ := heap ((m.raw.get? k).getD 0)

def withPrior (node : NodeStats F ρ) : NodeStats F ρ :=
  if node.count = 1 ∧ A.ne node.stdLog m.std = true then { node with stdLog := m.std, stderrLog := m.std } else node

def shrunk (node : NodeStats F ρ) (parents : List (NodeStats F ρ)) : NodeStats F ρ :=
  { m.withPrior A node with
    shrinkageVar := (shrinkage A node parents (A.square m.std) m.kappa).1
    coldStart := (shrinkage A node parents (A.square m.std) m.kappa).2 }

omit A heap in
theorem mem_parentsOf {p k : κ} : p ∈ m.parentsOf k ↔ m.IsParent p k := by
  unfold parentsOf IsParent
  cases m.parents.get? k <;> simp

noncomputable def eager : κ → NodeStats F ρ :=
  m.wf.fix fun k node => m.shrunk A (m.nodeOf heap k)
    ((m.parentsOf k).attach.map fun p => node p.1 (m.mem_parentsOf.mp p.2))

theorem eager_eq (k : κ) :
    m.eager A heap k = m.shrunk A (m.nodeOf heap k) ((m.parentsOf k).map (m.eager A heap)) := by
  conv_lhs => rw [eager, WellFounded.fix_eq]
  exact congrArg _ (List.attach_map_val (f := m.eager A heap))

end Eager

end NodeMap

end ClawBox.Knowledge
