import Mathlib.Data.List.Basic
import Mathlib.Tactic.Common

namespace Getopt

abbrev Arg := List Char

structure Letters where
  takes : Char → Option Bool
  dash : takes '-' = none

inductive Spelled where
  | flags (fs : List Char)
  | attached (fs : List Char) (c : Char) (v : Arg)
  | separate (fs : List Char) (c : Char) (v : Arg)
  deriving DecidableEq

namespace Spelled

def args : Spelled → List Arg
  | .flags fs => ['-' :: fs]
  | .attached fs c v => ['-' :: (fs ++ c :: v)]
  | .separate fs c v => ['-' :: (fs ++ [c]), v]

def items : Spelled → List (Char × Option Arg)
  | .flags fs => fs.map fun f => (f, none)
  | .attached fs c v | .separate fs c v => fs.map (fun f => (f, none)) ++ [(c, some v)]

def Valid (L : Letters) : Spelled → Prop
  | .flags fs => fs ≠ [] ∧ ∀ f ∈ fs, L.takes f = some false
  | .attached fs c v => (∀ f ∈ fs, L.takes f = some false) ∧ L.takes c = some true ∧ v ≠ []
  | .separate fs c _ => (∀ f ∈ fs, L.takes f = some false) ∧ L.takes c = some true

end Spelled

def args (gs : List Spelled) : List Arg := gs.flatMap Spelled.args

def items (gs : List Spelled) : List (Char × Option Arg) := gs.flatMap Spelled.items

def scan (L : Letters) : List Char → Option (List Char × Option (Char × List Char))
  | [] => some ([], none)
  | c :: cs =>
    match L.takes c with
    | none => none
    | some true => some ([], some (c, cs))
    | some false => (scan L cs).map fun r => (c :: r.1, r.2)

def read (L : Letters) : List Arg → Option (List Spelled × List Arg)
  | [] => some ([], [])
  | ('-' :: c :: cs) :: rest =>
    if c = '-' ∧ cs = [] then some ([], rest)
    else
      match scan L (c :: cs) with
      | none => none
      | some (fs, none) => (read L rest).map fun r => (.flags fs :: r.1, r.2)
      | some (fs, some (d, [])) =>
        match rest with
        | [] => none
        | v :: rest => (read L rest).map fun r => (.separate fs d v :: r.1, r.2)
      | some (fs, some (d, e :: v)) => (read L rest).map fun r => (.attached fs d (e :: v) :: r.1, r.2)
  | a :: rest => some ([], a :: rest)

variable {L : Letters}

@[simp] theorem args_nil : args [] = [] := rfl

@[simp] theorem args_cons (g : Spelled) (gs : List Spelled) : args (g :: gs) = g.args ++ args gs := rfl

@[simp] theorem items_nil : items [] = [] := rfl

@[simp] theorem items_cons (g : Spelled) (gs : List Spelled) : items (g :: gs) = g.items ++ items gs := rfl

theorem items_append (gs hs : List Spelled) : items (gs ++ hs) = items gs ++ items hs := List.flatMap_append

theorem scan_flags {fs : List Char} (h : ∀ f ∈ fs, L.takes f = some false) : scan L fs = some (fs, none) := by
  induction fs with
  | nil => rfl
  | cons f fs ih =>
    rw [scan, h f List.mem_cons_self]
    simp only
    rw [ih fun g hg => h g (List.mem_cons_of_mem f hg)]
    rfl

theorem scan_value {fs : List Char} (h : ∀ f ∈ fs, L.takes f = some false) {c : Char} (hc : L.takes c = some true)
    (v : Arg) :
    scan L (fs ++ c :: v) = some (fs, some (c, v)) := by
  induction fs with
  | nil => simp only [List.nil_append, scan, hc]
  | cons f fs ih =>
    rw [List.cons_append, scan, h f List.mem_cons_self]
    simp only
    rw [ih fun g hg => h g (List.mem_cons_of_mem f hg)]
    rfl

theorem ne_dash_of_takes {c : Char} {b : Bool} (h : L.takes c = some b) : c ≠ '-' := by
  rintro rfl
  rw [L.dash] at h
  cases h

theorem read_spelled {g : Spelled} (hg : g.Valid L) (more : List Arg) :
    read L (g.args ++ more) = (read L more).map fun r => (g :: r.1, r.2) := by
  cases g with
  | flags fs =>
    obtain ⟨hne, hfs⟩ := hg
    cases fs with
    | nil => exact absurd rfl hne
    | cons f fs =>
      have hf := ne_dash_of_takes (hfs f List.mem_cons_self)
      simp only [Spelled.args, List.singleton_append, read, hf, false_and, if_false, scan_flags hfs]
  | attached fs c v =>
    obtain ⟨hfs, hc, hv⟩ := hg
    have hscan := scan_value hfs hc v
    cases v with
    | nil => exact absurd rfl hv
    | cons e v =>
      cases fs with
      | nil =>
        have hd := ne_dash_of_takes hc
        rw [List.nil_append] at hscan
        simp only [Spelled.args, List.nil_append, List.singleton_append, read, hd, false_and, if_false, hscan]
      | cons f fs =>
        have hf := ne_dash_of_takes (hfs f List.mem_cons_self)
        rw [List.cons_append] at hscan
        simp only [Spelled.args, List.cons_append, List.nil_append, read, hf, false_and, if_false, hscan]
  | separate fs c v =>
    obtain ⟨hfs, hc⟩ := hg
    have hscan := scan_value hfs hc []
    cases fs with
    | nil =>
      have hd := ne_dash_of_takes hc
      rw [List.nil_append] at hscan
      simp only [Spelled.args, List.nil_append, List.cons_append, read, hd, false_and, if_false, hscan]
    | cons f fs =>
      have hf := ne_dash_of_takes (hfs f List.mem_cons_self)
      rw [List.cons_append] at hscan
      simp only [Spelled.args, List.cons_append, List.nil_append, read, hf, false_and, if_false, hscan]

theorem read_args {gs : List Spelled} (h : ∀ g ∈ gs, g.Valid L) (more : List Arg) :
    read L (args gs ++ more) = (read L more).map fun r => (gs ++ r.1, r.2) := by
  induction gs with
  | nil => simp
  | cons g gs ih =>
    rw [args_cons, List.append_assoc, read_spelled (h g List.mem_cons_self),
      ih fun g' hg => h g' (List.mem_cons_of_mem g hg), Option.map_map]
    rfl

def Operand (a : Arg) : Prop := ∀ c cs, a ≠ '-' :: c :: cs

theorem read_operand {a : Arg} (h : Operand a) (rest : List Arg) : read L (a :: rest) = some ([], a :: rest) := by
  rw [read]
  intro c cs
  exact h c cs

theorem read_end (rest : List Arg) : read L (['-', '-'] :: rest) = some ([], rest) := by
  simp [read]

end Getopt
