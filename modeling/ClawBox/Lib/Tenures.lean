import ClawBox.Lib.PyDict
import Mathlib.Tactic.Linarith

namespace Tenures

/-- A mark says where the last reading comes from. -/
structure Tenure (K O M : Type*) where
  key : K
  owner : O
  first : ℤ
  last : ℤ
  mark : M

/-- The tenures that go on and, with the interval each ended in, those that are over. -/
structure Book (K O M : Type*) where
  current : PyDict K (Tenure K O M) := ∅
  past : List (Tenure K O M × ℕ) := []
  interval : ℕ := 0

variable {K O M : Type*}

/-- A unit is counted in the tenure in which the meter passed it. -/
def Tenure.Counts (t : Tenure K O M) (n : ℤ) : Prop := t.first < n ∧ n ≤ t.last

def Tenure.UpTo (t : Tenure K O M) (v : ℤ) : Prop := t.first < t.last → t.last ≤ v

theorem Tenure.UpTo.apart {p q : Tenure K O M} (h : p.UpTo q.first) (n : ℤ) : ¬ (p.Counts n ∧ q.Counts n) := by
  rintro ⟨⟨hp, hp'⟩, hq, -⟩
  have := h (lt_of_lt_of_le hp hp')
  omega

namespace Book

def tenures (b : Book K O M) : List (Tenure K O M) := b.past.map Prod.fst ++ b.current.values

def share (P : O → Prop) [DecidablePred P] (t : Tenure K O M) : ℤ := if P t.owner then t.last - t.first else 0

def total (b : Book K O M) (P : O → Prop) [DecidablePred P] : ℤ :=
  (b.past.map fun p => share P p.1).sum + b.current.sum fun _ t => share P t

variable [DecidableEq K]

def enter (b : Book K O M) (k : K) (o : O) (v : ℤ) (m : M) : Book K O M :=
  { b with current := b.current.set k ⟨k, o, v, v, m⟩ }

def read (b : Book K O M) (k : K) (v : ℤ) (m : M) : Book K O M :=
  match b.current.get? k with
  | none => b
  | some t => { b with current := b.current.set k { t with last := v, mark := m } }

def close (b : Book K O M) (k : K) : Book K O M :=
  match b.current.get? k with
  | none => b
  | some t => { b with current := b.current.pop k, past := b.past ++ [(t, b.interval)] }

def turn (b : Book K O M) : Book K O M := { b with interval := b.interval + 1 }

variable {b : Book K O M} {k : K} {t : Tenure K O M}

@[simp] theorem enter_interval (b : Book K O M) (k : K) (o : O) (v : ℤ) (m : M) :
    (b.enter k o v m).interval = b.interval := rfl

@[simp] theorem read_interval (b : Book K O M) (k : K) (v : ℤ) (m : M) : (b.read k v m).interval = b.interval := by
  unfold read
  split <;> rfl

@[simp] theorem close_interval (b : Book K O M) (k : K) : (b.close k).interval = b.interval := by
  unfold close
  split <;> rfl

theorem read_of_some (h : b.current.get? k = some t) (v : ℤ) (m : M) :
    b.read k v m = { b with current := b.current.set k { t with last := v, mark := m } } := by
  simp [read, h]

theorem close_of_some (h : b.current.get? k = some t) :
    b.close k = { b with current := b.current.pop k, past := b.past ++ [(t, b.interval)] } := by
  simp [close, h]

section Total

variable (P : O → Prop) [DecidablePred P]

theorem total_enter (h : b.current.get? k = none) (o : O) (v : ℤ) (m : M) :
    (b.enter k o v m).total P = b.total P := by
  simp [total, enter, PyDict.sum_set_new _ _ h, share]

theorem total_read (h : b.current.get? k = some t) (v : ℤ) (m : M) :
    (b.read k v m).total P = b.total P + if P t.owner then v - t.last else 0 := by
  rw [read_of_some h]
  simp only [total, PyDict.sum_set_old _ _ h, share]
  split_ifs <;> omega

theorem total_close (h : b.current.get? k = some t) : (b.close k).total P = b.total P := by
  rw [close_of_some h]
  simp only [total, PyDict.sum_pop, PyDict.weight_of_get? h, List.map_append, List.map_cons, List.map_nil,
    List.sum_append, List.sum_cons, List.sum_nil]
  omega

end Total

structure Kept (b : Book K O M) : Prop where
  key : ∀ k t, b.current.get? k = some t → t.key = k
  forward : ∀ t ∈ b.tenures, t.first ≤ t.last

theorem mem_tenures : t ∈ b.tenures ↔ (∃ n, (t, n) ∈ b.past) ∨ ∃ k, b.current.get? k = some t := by
  simp [tenures, PyDict.mem_values]

theorem mem_tenures_of_current (h : b.current.get? k = some t) : t ∈ b.tenures := mem_tenures.2 (.inr ⟨k, h⟩)

theorem mem_close {u : Tenure K O M} (hu : u ∈ (b.close k).tenures) : u ∈ b.tenures := by
  cases h : b.current.get? k with
  | none => simpa [close, h] using hu
  | some t =>
    rw [close_of_some h] at hu
    rcases mem_tenures.1 hu with ⟨n, hn⟩ | ⟨x, hx⟩
    · rcases List.mem_append.1 hn with hn | hn
      · exact mem_tenures.2 (.inl ⟨n, hn⟩)
      · cases List.mem_singleton.1 hn
        exact mem_tenures_of_current h
    · rw [PyDict.get?_pop] at hx
      split_ifs at hx
      exact mem_tenures_of_current hx

theorem mem_enter {u : Tenure K O M} {o : O} {v : ℤ} {m : M} (hu : u ∈ (b.enter k o v m).tenures) :
    u = ⟨k, o, v, v, m⟩ ∨ u ∈ b.tenures := by
  rcases mem_tenures.1 hu with ⟨n, hn⟩ | ⟨x, hx⟩
  · exact .inr (mem_tenures.2 (.inl ⟨n, hn⟩))
  · simp only [enter, PyDict.get?_set] at hx
    split_ifs at hx
    · exact .inl (Option.some.inj hx).symm
    · exact .inr (mem_tenures_of_current hx)

theorem Kept.enter (h : b.Kept) (k : K) (o : O) (v : ℤ) (m : M) : (b.enter k o v m).Kept := by
  refine ⟨?_, ?_⟩
  · intro x t hx
    simp only [Book.enter, PyDict.get?_set] at hx
    split_ifs at hx with hxk
    · rw [← Option.some.inj hx, hxk]
    · exact h.key x t hx
  · intro u hu
    rcases mem_enter hu with rfl | hu
    · exact le_refl v
    · exact h.forward u hu

theorem Kept.read (h : b.Kept) (ht : b.current.get? k = some t) {v : ℤ} (hv : t.last ≤ v) (m : M) :
    (b.read k v m).Kept := by
  have hle := h.forward t (mem_tenures_of_current ht)
  rw [read_of_some ht]
  refine ⟨?_, ?_⟩
  · intro x u hx
    simp only [PyDict.get?_set] at hx
    split_ifs at hx with hxk
    · rw [← Option.some.inj hx, hxk]
      exact h.key k t ht
    · exact h.key x u hx
  · intro u hu
    rcases mem_tenures.1 hu with ⟨n, hn⟩ | ⟨x, hx⟩
    · exact h.forward u (mem_tenures.2 (.inl ⟨n, hn⟩))
    · simp only [PyDict.get?_set] at hx
      split_ifs at hx
      · rw [← Option.some.inj hx]
        exact le_trans hle hv
      · exact h.forward u (mem_tenures_of_current hx)

theorem Kept.close (h : b.Kept) (k : K) : (b.close k).Kept := by
  refine ⟨?_, fun u hu => h.forward u (mem_close hu)⟩
  intro x u hx
  cases hk : b.current.get? k with
  | none =>
    simp only [Book.close, hk] at hx
    exact h.key x u hx
  | some t =>
    rw [close_of_some hk, PyDict.get?_pop] at hx
    split_ifs at hx
    exact h.key x u hx

structure Once (b : Book K O M) : Prop where
  past : b.past.Pairwise fun p q => p.1.key = q.1.key → p.1.UpTo q.1.first
  current : ∀ k t, b.current.get? k = some t → ∀ p ∈ b.past, p.1.key = k → p.1.UpTo t.first

theorem Once.enter (h : b.Once) (o : O) {v : ℤ} (m : M) (hv : ∀ p ∈ b.past, p.1.key = k → p.1.UpTo v) :
    (b.enter k o v m).Once := by
  refine ⟨h.past, ?_⟩
  intro x t hx
  simp only [Book.enter, PyDict.get?_set] at hx
  split_ifs at hx with hxk
  · rw [← Option.some.inj hx, hxk]
    exact hv
  · exact h.current x t hx

theorem Once.read (h : b.Once) (k : K) (v : ℤ) (m : M) : (b.read k v m).Once := by
  cases ht : b.current.get? k with
  | none => simpa [Book.read, ht] using h
  | some t =>
    rw [read_of_some ht]
    refine ⟨h.past, ?_⟩
    intro x u hx
    simp only [PyDict.get?_set] at hx
    split_ifs at hx with hxk
    · rw [← Option.some.inj hx, hxk]
      exact h.current k t ht
    · exact h.current x u hx

theorem Once.close (h : b.Once) (hb : b.Kept) (k : K) : (b.close k).Once := by
  cases ht : b.current.get? k with
  | none => simpa [Book.close, ht] using h
  | some t =>
    rw [close_of_some ht]
    refine ⟨?_, ?_⟩
    · rw [List.pairwise_append]
      refine ⟨h.past, List.pairwise_singleton _ _, ?_⟩
      intro p hp q hq hkey
      rw [List.mem_singleton.1 hq] at hkey ⊢
      exact h.current k t ht p hp (hkey.trans (hb.key k t ht))
    · intro x u hx p hp hkey
      rw [PyDict.get?_pop] at hx
      split_ifs at hx with hxk
      rcases List.mem_append.1 hp with hp | hp
      · exact h.current x u hx p hp hkey
      · rw [List.mem_singleton.1 hp] at hkey
        exact absurd (hkey.symm.trans (hb.key k t ht)) hxk

theorem Once.apart (h : b.Once) (hb : b.Kept) :
    b.tenures.Pairwise fun p q => p.key = q.key → ∀ n, ¬ (p.Counts n ∧ q.Counts n) := by
  rw [tenures, List.pairwise_append]
  refine ⟨?_, ?_, ?_⟩
  · rw [List.pairwise_map]
    exact h.past.imp fun hpq hkey n => (hpq hkey).apart n
  · have hnodup := List.pairwise_map.1 b.current.nodup
    rw [PyDict.values, List.pairwise_map]
    refine hnodup.imp_of_mem ?_
    intro x y hx hy hne hkey
    have hx' := hb.key x.1 x.2 (PyDict.get?_eq_some.2 hx)
    have hy' := hb.key y.1 y.2 (PyDict.get?_eq_some.2 hy)
    exact absurd (hx'.symm.trans (hkey.trans hy')) hne
  · intro p hp q hq hkey n
    obtain ⟨e, he, rfl⟩ := List.mem_map.1 hp
    obtain ⟨x, hx⟩ := PyDict.mem_values.1 hq
    exact (h.current x q hx e he (hkey.trans (hb.key x q hx))).apart n

end Book

end Tenures
