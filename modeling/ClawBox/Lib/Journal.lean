import Mathlib.Data.List.Basic
import Mathlib.Tactic.Common

namespace Journal

/-- Records as lines, and back. -/
structure Format (β ρ : Type*) where
  newline : β
  render : ρ → List β
  parse : List β → Option ρ
  newline_not_mem : ∀ r, newline ∉ render r
  parse_render : ∀ r, parse (render r) = some r

section Lines

variable {β : Type*} [DecidableEq β]

def readLines (newline : β) : List β → List (List β) × List β
  | [] => ([], [])
  | b :: bs =>
    if b = newline then ([] :: (readLines newline bs).1, (readLines newline bs).2)
    else
      match readLines newline bs with
      | ([], rest) => ([], b :: rest)
      | (l :: lines, rest) => ((b :: l) :: lines, rest)

variable {newline : β}

theorem readLines_line {l : List β} (h : newline ∉ l) (bs : List β) :
    readLines newline (l ++ newline :: bs) = (l :: (readLines newline bs).1, (readLines newline bs).2) := by
  induction l with
  | nil => rw [List.nil_append, readLines, if_pos rfl]
  | cons b l ih =>
    rw [List.mem_cons, not_or] at h
    rw [List.cons_append, readLines, if_neg (Ne.symm h.1), ih h.2]

theorem readLines_rest {l : List β} (h : newline ∉ l) : readLines newline l = ([], l) := by
  induction l with
  | nil => rfl
  | cons b l ih =>
    rw [List.mem_cons, not_or] at h
    rw [readLines, if_neg (Ne.symm h.1), ih h.2]

end Lines

namespace Format

variable {β ρ σ : Type*} (F : Format β ρ)

def line (r : ρ) : List β := F.render r ++ [F.newline]

def file (rows : List ρ) : List β := rows.flatMap F.line

theorem file_snoc (rows : List ρ) (r : ρ) : F.file (rows ++ [r]) = F.file rows ++ F.line r := by
  rw [file, List.flatMap_append, List.flatMap_singleton]
  rfl

theorem take_line (r : ρ) (k : ℕ) : (F.line r).take k = F.line r ∨ F.newline ∉ (F.line r).take k := by
  by_cases hk : k ≤ (F.render r).length
  · right
    rw [line, List.take_append_of_le_length hk]
    exact fun h => F.newline_not_mem r (List.mem_of_mem_take h)
  · left
    apply List.take_of_length_le
    rw [line, List.length_append, List.length_singleton]
    omega

def Whole (apply : σ → ρ → Option σ) (start : σ) (file : List β) (s : σ) : Prop :=
  ∃ rows, file = F.file rows ∧ rows.foldlM apply start = some s

def Holds (apply : σ → ρ → Option σ) (start : σ) (file : List β) (s : σ) : Prop :=
  ∃ whole rest, F.newline ∉ rest ∧ file = whole ++ rest ∧ F.Whole apply start whole s

section Writer

variable {F} {apply : σ → ρ → Option σ} {start s t : σ} {file : List β}

theorem whole_nil : F.Whole apply start [] start := ⟨[], rfl, rfl⟩

theorem Whole.holds (h : F.Whole apply start file s) : F.Holds apply start file s :=
  ⟨file, [], by simp, by simp, h⟩

theorem Whole.append (h : F.Whole apply start file s) {r : ρ} (hr : apply s r = some t) :
    F.Whole apply start (file ++ F.line r) t := by
  obtain ⟨rows, rfl, hrows⟩ := h
  refine ⟨rows ++ [r], (F.file_snoc rows r).symm, ?_⟩
  rw [List.foldlM_append, hrows]
  simpa using hr

theorem Whole.cut (h : F.Whole apply start file s) {r : ρ} (hr : apply s r = some t) (k : ℕ) :
    F.Holds apply start (file ++ (F.line r).take k) s ∨ F.Holds apply start (file ++ (F.line r).take k) t := by
  rcases F.take_line r k with hall | hrest
  · right
    rw [hall]
    exact (h.append hr).holds
  · left
    exact ⟨file, _, hrest, rfl, h⟩

end Writer

section Reader

variable [DecidableEq β]

theorem readLines_file (rows : List ρ) {rest : List β} (h : F.newline ∉ rest) :
    readLines F.newline (F.file rows ++ rest) = (rows.map F.render, rest) := by
  induction rows with
  | nil => exact readLines_rest h
  | cons r rows ih =>
    have hline : F.file (r :: rows) ++ rest = F.render r ++ F.newline :: (F.file rows ++ rest) := by
      simp [file, line]
    rw [hline, readLines_line (F.newline_not_mem r), ih]
    rfl

omit [DecidableEq β] in
theorem mapM_parse (rows : List ρ) : (rows.map F.render).mapM F.parse = some rows := by
  induction rows with
  | nil => rfl
  | cons r rows ih => simp [F.parse_render, ih]

def recover (apply : σ → ρ → Option σ) (start : σ) (file : List β) : Option (σ × List β) :=
  (((readLines F.newline file).1.mapM F.parse).bind fun rows => rows.foldlM apply start).map fun s =>
    (s, file.take (file.length - (readLines F.newline file).2.length))

theorem Holds.recover {F : Format β ρ} {apply : σ → ρ → Option σ} {start s : σ} {file : List β}
    (h : F.Holds apply start file s) : ∃ whole, F.recover apply start file = some (s, whole) ∧
    F.Whole apply start whole s := by
  obtain ⟨whole, rest, hrest, rfl, rows, rfl, hrows⟩ := h
  refine ⟨F.file rows, ?_, rows, rfl, hrows⟩
  have hread := F.readLines_file rows hrest
  rw [Format.recover, hread, mapM_parse, Option.bind_some, hrows, List.length_append, Nat.add_sub_cancel,
    List.take_left]
  rfl

end Reader

end Format

end Journal
