import Mathlib.Algebra.BigOperators.Group.List.Basic
import Mathlib.Algebra.Order.BigOperators.Group.List
import Mathlib.Data.List.Nodup
import Mathlib.Tactic.Abel
import Mathlib.Tactic.Common
import Mathlib.Algebra.Order.Group.Int

structure PyDict (κ ν : Type*) where
  entries : List (κ × ν)
  nodup : (entries.map Prod.fst).Nodup
  deriving DecidableEq

namespace PyDict

variable {κ ν : Type*}

def empty : PyDict κ ν := ⟨[], by simp⟩

instance : EmptyCollection (PyDict κ ν) := ⟨empty⟩

instance : Inhabited (PyDict κ ν) := ⟨empty⟩

def keys (d : PyDict κ ν) : List κ := d.entries.map Prod.fst

def values (d : PyDict κ ν) : List ν := d.entries.map Prod.snd

variable [DecidableEq κ]

def get? (d : PyDict κ ν) (k : κ) : Option ν := (d.entries.find? (fun e => e.1 = k)).map Prod.snd

def put (k : κ) (v : ν) : List (κ × ν) → List (κ × ν)
  | [] => [(k, v)]
  | e :: l => if e.1 = k then (k, v) :: l else e :: put k v l

theorem mem_put_fst {k : κ} {v : ν} {l : List (κ × ν)} {x : κ} (h : x ∈ (put k v l).map Prod.fst) :
    x = k ∨ x ∈ l.map Prod.fst := by
  induction l with
  | nil => simpa [put] using h
  | cons e l ih =>
    unfold put at h
    split_ifs at h with he
    · simp only [List.map_cons, List.mem_cons] at h ⊢
      tauto
    · simp only [List.map_cons, List.mem_cons] at h ⊢
      have := ih
      tauto

theorem put_nodup (k : κ) (v : ν) {l : List (κ × ν)} (h : (l.map Prod.fst).Nodup) :
    ((put k v l).map Prod.fst).Nodup := by
  induction l with
  | nil => simp [put]
  | cons e l ih =>
    rw [List.map_cons, List.nodup_cons] at h
    unfold put
    split_ifs with he
    · simpa [← he] using h
    · rw [List.map_cons, List.nodup_cons]
      refine ⟨?_, ih h.2⟩
      intro hm
      rcases mem_put_fst hm with hk | hm
      · exact he hk
      · exact h.1 hm

def set (d : PyDict κ ν) (k : κ) (v : ν) : PyDict κ ν := ⟨put k v d.entries, put_nodup k v d.nodup⟩

def pop (d : PyDict κ ν) (k : κ) : PyDict κ ν :=
  ⟨d.entries.filter (fun e => e.1 ≠ k), d.nodup.sublist (List.filter_sublist.map _)⟩

@[simp] theorem get?_empty (k : κ) : (∅ : PyDict κ ν).get? k = none := rfl

theorem mem_of_get? {d : PyDict κ ν} {k : κ} {v : ν} (h : d.get? k = some v) : (k, v) ∈ d.entries := by
  obtain ⟨e, he, rfl⟩ := Option.map_eq_some_iff.mp h
  have hk : e.1 = k := by simpa using List.find?_some he
  rw [← hk]
  exact List.mem_of_find?_eq_some he

theorem find?_of_mem {l : List (κ × ν)} (hnd : (l.map Prod.fst).Nodup) {e : κ × ν} (h : e ∈ l) :
    l.find? (fun x => x.1 = e.1) = some e := by
  induction l with
  | nil => cases h
  | cons x l ih =>
    rw [List.map_cons, List.nodup_cons] at hnd
    rcases List.mem_cons.mp h with rfl | h
    · simp
    · have hx : x.1 ≠ e.1 := by
        intro he
        exact hnd.1 (he ▸ List.mem_map_of_mem h)
      simpa [hx] using ih hnd.2 h

theorem get?_eq_some {d : PyDict κ ν} {k : κ} {v : ν} : d.get? k = some v ↔ (k, v) ∈ d.entries := by
  refine ⟨mem_of_get?, fun h => ?_⟩
  simp [get?, find?_of_mem d.nodup h]

theorem get?_eq_none {d : PyDict κ ν} {k : κ} : d.get? k = none ↔ k ∉ d.keys := by
  simp only [get?, Option.map_eq_none_iff, List.find?_eq_none, keys, List.mem_map, not_exists, not_and,
    decide_eq_true_eq]

theorem mem_keys {d : PyDict κ ν} {k : κ} : k ∈ d.keys ↔ (d.get? k).isSome := by
  rw [← not_iff_not, ← get?_eq_none, Bool.not_eq_true, Option.isSome_eq_false_iff, Option.isNone_iff_eq_none]

theorem find?_put (k x : κ) (v : ν) (l : List (κ × ν)) :
    (put k v l).find? (fun e => e.1 = x) = if x = k then some (k, v) else l.find? (fun e => e.1 = x) := by
  induction l with
  | nil =>
    by_cases hx : x = k
    · simp [put, hx]
    · simp [put, hx, Ne.symm hx]
  | cons e l ih =>
    unfold put
    by_cases he : e.1 = k
    · by_cases hx : x = k
      · simp [he, hx]
      · have h1 : k ≠ x := Ne.symm hx
        have h2 : e.1 ≠ x := by rw [he]; exact h1
        simp [he, hx, h1]
    · by_cases hex : e.1 = x
      · have hx : x ≠ k := by rintro rfl; exact he hex
        simp [hex, hx]
      · simp [he, hex, ih]

theorem get?_set (d : PyDict κ ν) (k x : κ) (v : ν) : (d.set k v).get? x = if x = k then some v else d.get? x := by
  simp only [get?, set, find?_put]
  split_ifs <;> rfl

@[simp] theorem get?_set_self (d : PyDict κ ν) (k : κ) (v : ν) : (d.set k v).get? k = some v := by
  simp [get?_set]

theorem get?_set_ne (d : PyDict κ ν) {k x : κ} (v : ν) (h : x ≠ k) : (d.set k v).get? x = d.get? x := by
  simp [get?_set, h]

theorem put_of_not_mem {k : κ} (v : ν) {l : List (κ × ν)} (h : k ∉ l.map Prod.fst) : put k v l = l ++ [(k, v)] := by
  induction l with
  | nil => rfl
  | cons e l ih =>
    simp only [List.map_cons, List.mem_cons, not_or] at h
    simp [put, Ne.symm h.1, ih h.2]

theorem mem_keys_set {d : PyDict κ ν} {k x : κ} {v : ν} : x ∈ (d.set k v).keys ↔ x = k ∨ x ∈ d.keys := by
  rw [mem_keys, mem_keys, get?_set]
  by_cases hx : x = k
  · simp [hx]
  · simp [hx]

theorem put_put_self (k : κ) (v w : ν) (l : List (κ × ν)) : put k v (put k w l) = put k v l := by
  induction l with
  | nil => simp [put]
  | cons e l ih =>
    by_cases he : e.1 = k
    · simp [put, he]
    · simp [put, he, ih]

theorem put_of_mem {k : κ} {v : ν} {l : List (κ × ν)} (hnd : (l.map Prod.fst).Nodup) (h : (k, v) ∈ l) :
    put k v l = l := by
  induction l with
  | nil => cases h
  | cons e l ih =>
    rw [List.map_cons, List.nodup_cons] at hnd
    rcases List.mem_cons.1 h with rfl | h
    · simp [put]
    · have he : e.1 ≠ k := fun he => hnd.1 (he ▸ List.mem_map_of_mem h)
      rw [put, if_neg he, ih hnd.2 h]

theorem set_of_get? {d : PyDict κ ν} {k : κ} {v : ν} (h : d.get? k = some v) : d.set k v = d := by
  cases d with
  | mk l hnd =>
    have hput : put k v l = l := put_of_mem hnd (mem_of_get? h)
    simp only [set, hput]

theorem put_comm {k x : κ} (v y : ν) (h : x ≠ k) {l : List (κ × ν)} (hk : k ∈ l.map Prod.fst) :
    put x y (put k v l) = put k v (put x y l) := by
  induction l with
  | nil => cases hk
  | cons e l ih =>
    by_cases he : e.1 = k
    · have hx : e.1 ≠ x := by rw [he]; exact h.symm
      simp [put, he, h.symm]
    · have hmem : k ∈ l.map Prod.fst := (List.mem_cons.1 hk).resolve_left (Ne.symm he)
      by_cases hx : e.1 = x
      · simp [put, hx, h]
      · simp [put, he, hx, ih hmem]

theorem set_set_self (d : PyDict κ ν) (k : κ) (v w : ν) : (d.set k w).set k v = d.set k v := by
  simp only [set, put_put_self]

theorem set_comm {d : PyDict κ ν} {k x : κ} (v y : ν) (h : x ≠ k) (hk : k ∈ d.keys) :
    (d.set k v).set x y = (d.set x y).set k v := by
  simp only [set, put_comm v y h hk]

theorem keys_set (d : PyDict κ ν) (k : κ) (v : ν) :
    (d.set k v).keys = if k ∈ d.keys then d.keys else d.keys ++ [k] := by
  have hput : ∀ l : List (κ × ν), (put k v l).map Prod.fst = if k ∈ l.map Prod.fst then l.map Prod.fst else l.map
      Prod.fst ++ [k] := by
    intro l
    induction l with
    | nil => simp [put]
    | cons e l ih =>
      by_cases he : e.1 = k
      · simp [put, he]
      · rw [put, if_neg he, List.map_cons, ih, List.map_cons]
        by_cases hk : k ∈ l.map Prod.fst
        · rw [if_pos hk, if_pos (List.mem_cons_of_mem _ hk)]
        · rw [if_neg hk, if_neg (List.not_mem_cons_of_ne_of_not_mem (Ne.symm he) hk), List.cons_append]
  exact hput d.entries

def update (d e : PyDict κ ν) : PyDict κ ν := e.entries.foldl (fun d x => d.set x.1 x.2) d

@[simp] theorem update_empty (d : PyDict κ ν) : d.update ∅ = d := rfl

theorem get?_foldl_set {l : List (κ × ν)} (hnd : (l.map Prod.fst).Nodup) (d : PyDict κ ν) (k : κ) :
    (l.foldl (fun d x => d.set x.1 x.2) d).get? k = ((l.find? (·.1 = k)).map Prod.snd).or (d.get? k) := by
  induction l generalizing d with
  | nil => simp
  | cons e l ih =>
    rw [List.map_cons, List.nodup_cons] at hnd
    rw [List.foldl_cons, ih hnd.2, get?_set]
    by_cases he : e.1 = k
    · subst he
      have hnone : l.find? (·.1 = e.1) = none := by
        rw [List.find?_eq_none]
        intro x hx hxe
        exact hnd.1 (List.mem_map.2 ⟨x, hx, by simpa using hxe⟩)
      simp [hnone]
    · simp [he, Ne.symm he]

theorem get?_update (d e : PyDict κ ν) (k : κ) : (d.update e).get? k = (e.get? k).or (d.get? k) :=
  get?_foldl_set e.nodup d k

theorem keys_foldl_set {l : List (κ × ν)} (hnd : (l.map Prod.fst).Nodup) (d : PyDict κ ν) :
    (l.foldl (fun d x => d.set x.1 x.2) d).keys = d.keys ++ (l.map Prod.fst).filter (· ∉ d.keys) := by
  induction l generalizing d with
  | nil => simp
  | cons e l ih =>
    rw [List.map_cons, List.nodup_cons] at hnd
    rw [List.foldl_cons, ih hnd.2, keys_set, List.map_cons]
    by_cases he : e.1 ∈ d.keys
    · simp [he]
    · have hsame : (l.map Prod.fst).filter (· ∉ d.keys ++ [e.1]) = (l.map Prod.fst).filter (· ∉ d.keys) := by
        apply List.filter_congr
        intro x hx
        have hne : x ≠ e.1 := fun h => hnd.1 (h ▸ hx)
        simp [hne]
      rw [if_neg he, hsame, List.append_assoc, List.filter_cons_of_pos (by simpa using he), List.singleton_append]

theorem keys_update (d e : PyDict κ ν) : (d.update e).keys = d.keys ++ e.keys.filter (· ∉ d.keys) :=
  keys_foldl_set e.nodup d

theorem set_foldl_set {l : List (κ × ν)} {k : κ} (hk : k ∉ l.map Prod.fst) {d : PyDict κ ν} (v : ν) (hd : k ∈ d.keys) :
    (l.foldl (fun d x => d.set x.1 x.2) d).set k v = l.foldl (fun d x => d.set x.1 x.2) (d.set k v) := by
  induction l generalizing d with
  | nil => rfl
  | cons e l ih =>
    rw [List.map_cons, List.mem_cons, not_or] at hk
    rw [List.foldl_cons, List.foldl_cons, ih hk.2 (mem_keys_set.2 (.inr hd)), set_comm v e.2 (Ne.symm hk.1) hd]

theorem update_set (d e : PyDict κ ν) (k : κ) (v : ν) : d.update (e.set k v) = (d.update e).set k v := by
  have hput : ∀ (l : List (κ × ν)), (l.map Prod.fst).Nodup → ∀ d : PyDict κ ν,
      (put k v l).foldl (fun d x => d.set x.1 x.2) d = (l.foldl (fun d x => d.set x.1 x.2) d).set k v := by
    intro l hnd
    induction l with
    | nil => exact fun d => rfl
    | cons x l ih =>
      intro d
      rw [List.map_cons, List.nodup_cons] at hnd
      by_cases hx : x.1 = k
      · subst hx
        rw [put, if_pos rfl, List.foldl_cons, List.foldl_cons, set_foldl_set hnd.1 v (mem_keys_set.2 (.inl rfl)),
          set_set_self]
      · rw [put, if_neg hx, List.foldl_cons, List.foldl_cons, ih hnd.2]
  exact hput e.entries e.nodup d

theorem entries_set_new {d : PyDict κ ν} {k : κ} (v : ν) (h : k ∉ d.keys) :
    (d.set k v).entries = d.entries ++ [(k, v)] :=
  put_of_not_mem v h

theorem get?_pop (d : PyDict κ ν) (k x : κ) : (d.pop k).get? x = if x = k then none else d.get? x := by
  by_cases hx : x = k
  · subst x
    rw [if_pos rfl, get?_eq_none]
    simp [pop, keys]
  · rw [if_neg hx]
    ext v
    simp [get?_eq_some, pop, hx]

theorem mem_keys_pop {d : PyDict κ ν} {k x : κ} : x ∈ (d.pop k).keys ↔ x ≠ k ∧ x ∈ d.keys := by
  rw [mem_keys, mem_keys, get?_pop]
  by_cases hx : x = k
  · simp [hx]
  · simp [hx]

@[simp] theorem get?_pop_self (d : PyDict κ ν) (k : κ) : (d.pop k).get? k = none := by simp [get?_pop]

theorem get?_pop_ne (d : PyDict κ ν) {k x : κ} (h : x ≠ k) : (d.pop k).get? x = d.get? x := by
  simp [get?_pop, h]

theorem filter_put {k x : κ} (v : ν) (h : x ≠ k) (l : List (κ × ν)) :
    (put k v l).filter (fun e => e.1 ≠ x) = put k v (l.filter (fun e => e.1 ≠ x)) := by
  induction l with
  | nil => simp [put, Ne.symm h]
  | cons e l ih =>
    by_cases hk : e.1 = k
    · have hx : e.1 ≠ x := by rw [hk]; exact Ne.symm h
      simp [put, hk, Ne.symm h]
    · by_cases hx : e.1 = x
      · simpa [put, hk, hx, h] using ih
      · simpa [put, hk, hx] using ih

theorem pop_set_ne (d : PyDict κ ν) {k x : κ} (v : ν) (h : x ≠ k) : (d.set k v).pop x = (d.pop x).set k v := by
  cases d
  simp only [pop, set, filter_put v h]

theorem filter_put_self (k : κ) (v : ν) (l : List (κ × ν)) :
    (put k v l).filter (fun e => e.1 ≠ k) = l.filter (fun e => e.1 ≠ k) := by
  induction l with
  | nil => simp [put]
  | cons e l ih =>
    by_cases he : e.1 = k
    · simp [put, he]
    · simpa [put, he] using ih

theorem pop_set_self (d : PyDict κ ν) (k : κ) (v : ν) : (d.set k v).pop k = d.pop k := by
  cases d
  simp only [pop, set, filter_put_self]

theorem pop_of_get?_none {d : PyDict κ ν} {k : κ} (h : d.get? k = none) : d.pop k = d := by
  rw [get?_eq_none] at h
  have he : d.entries.filter (fun e => e.1 ≠ k) = d.entries := by
    rw [List.filter_eq_self]
    intro e he
    rw [decide_eq_true_iff]
    rintro rfl
    exact h (List.mem_map_of_mem he)
  cases d
  simpa [pop] using he

def mapValues {μ : Type*} (d : PyDict κ ν) (f : κ → ν → μ) : PyDict κ μ :=
  ⟨d.entries.map (fun e => (e.1, f e.1 e.2)), by simpa [Function.comp_def] using d.nodup⟩

theorem get?_mapValues {μ : Type*} (d : PyDict κ ν) (f : κ → ν → μ) (k : κ) :
    (d.mapValues f).get? k = (d.get? k).map (f k) := by
  ext x
  rw [Option.map_eq_some_iff]
  simp only [get?_eq_some, mapValues, List.mem_map, Prod.mk.injEq]
  constructor
  · rintro ⟨e, he, rfl, rfl⟩
    exact ⟨e.2, he, rfl⟩
  · rintro ⟨v, hv, rfl⟩
    exact ⟨(k, v), hv, rfl, rfl⟩

omit [DecidableEq κ] in
theorem mapValues_mapValues {μ ξ : Type*} (d : PyDict κ ν) (f : κ → ν → μ) (g : κ → μ → ξ) :
    (d.mapValues f).mapValues g = d.mapValues fun k v => g k (f k v) := by
  simp [mapValues, Function.comp_def]

theorem mapValues_congr {μ : Type*} {d : PyDict κ ν} {f g : κ → ν → μ} (h : ∀ k v, d.get? k = some v → f k v = g k v) :
    d.mapValues f = d.mapValues g := by
  have hmap : d.entries.map (fun e => (e.1, f e.1 e.2)) = d.entries.map (fun e => (e.1, g e.1 e.2)) := by
    apply List.map_congr_left
    intro e he
    rw [h e.1 e.2 (get?_eq_some.2 he)]
  simp only [mapValues, hmap]

omit [DecidableEq κ] in
theorem mapValues_id (d : PyDict κ ν) : (d.mapValues fun _ v => v) = d := by
  cases d
  simp [mapValues]

theorem entries_eq (d : PyDict κ ν) : d.entries.map some = d.keys.map fun k => (d.get? k).map (k, ·) := by
  rw [keys, List.map_map]
  apply List.map_congr_left
  intro e he
  have hget : d.get? e.1 = some e.2 := get?_eq_some.2 he
  simp [hget]

theorem ext_get? {d e : PyDict κ ν} (hkeys : d.keys = e.keys) (hget : ∀ k, d.get? k = e.get? k) : d = e := by
  have hmap : d.entries.map some = e.entries.map some := by
    simp only [entries_eq, hkeys, hget]
  have hentries := (List.map_injective_iff.2 (Option.some_injective _)) hmap
  cases d
  cases e
  simpa using hentries

omit [DecidableEq κ] in
theorem keys_mapValues {μ : Type*} (d : PyDict κ ν) (f : κ → ν → μ) : (d.mapValues f).keys = d.keys := by
  simp [keys, mapValues, Function.comp_def]

theorem mapValues_set {μ : Type*} (d : PyDict κ ν) (f : κ → ν → μ) (k : κ) (v : ν) :
    (d.set k v).mapValues f = (d.mapValues f).set k (f k v) := by
  apply ext_get?
  · simp only [keys_mapValues, keys_set]
  · intro x
    rw [get?_mapValues, get?_set, get?_set, get?_mapValues]
    by_cases hx : x = k
    · simp [hx]
    · simp [hx]

theorem set_congr {d e : PyDict κ ν} {k : κ} (hkeys : d.keys = e.keys) (hget : ∀ x, x ≠ k → d.get? x = e.get? x)
    (v : ν) :
    d.set k v = e.set k v := by
  apply ext_get?
  · rw [keys_set, keys_set, hkeys]
  · intro x
    rw [get?_set, get?_set]
    by_cases hx : x = k
    · rw [if_pos hx, if_pos hx]
    · rw [if_neg hx, if_neg hx, hget x hx]
theorem mem_values {d : PyDict κ ν} {v : ν} : v ∈ d.values ↔ ∃ k, d.get? k = some v := by
  simp only [values, List.mem_map, get?_eq_some]
  constructor
  · rintro ⟨e, he, rfl⟩
    exact ⟨e.1, he⟩
  · rintro ⟨k, hk⟩
    exact ⟨(k, v), hk, rfl⟩

section Sum

variable {M : Type*} [AddCommGroup M]

def sum (d : PyDict κ ν) (f : κ → ν → M) : M := (d.entries.map (fun e => f e.1 e.2)).sum

def weight (d : PyDict κ ν) (f : κ → ν → M) (k : κ) : M := ((d.get? k).map (f k)).getD 0

theorem weight_of_get? {d : PyDict κ ν} {f : κ → ν → M} {k : κ} {v : ν} (h : d.get? k = some v) :
    d.weight f k = f k v := by
  simp [weight, h]

theorem weight_of_none {d : PyDict κ ν} {f : κ → ν → M} {k : κ} (h : d.get? k = none) : d.weight f k = 0 := by
  simp [weight, h]

omit [DecidableEq κ] in
@[simp] theorem sum_empty (f : κ → ν → M) : (∅ : PyDict κ ν).sum f = 0 := rfl

omit [DecidableEq κ] in
theorem sum_mapValues {μ : Type*} (d : PyDict κ ν) (g : κ → ν → μ) (f : κ → μ → M) :
    (d.mapValues g).sum f = d.sum (fun k v => f k (g k v)) := by
  simp [sum, mapValues, Function.comp_def]

theorem sum_filter (f : κ → ν → M) (k : κ) {l : List (κ × ν)} (hnd : (l.map Prod.fst).Nodup) :
    ((l.filter (fun e => e.1 ≠ k)).map (fun e => f e.1 e.2)).sum =
      (l.map (fun e => f e.1 e.2)).sum - (((l.find? (fun e => e.1 = k)).map Prod.snd).map (f k)).getD 0 := by
  induction l with
  | nil => simp
  | cons e l ih =>
    rw [List.map_cons, List.nodup_cons] at hnd
    by_cases he : e.1 = k
    · have hk : k ∉ l.map Prod.fst := he ▸ hnd.1
      have hl : l.filter (fun e => e.1 ≠ k) = l := by
        rw [List.filter_eq_self]
        intro x hx
        rw [decide_eq_true_iff]
        rintro rfl
        exact hk (List.mem_map_of_mem hx)
      rw [List.filter_cons_of_neg (by simpa using he), hl]
      simp [he]
    · rw [List.filter_cons_of_pos (by simpa using he)]
      simp only [List.map_cons, List.sum_cons, ih hnd.2, List.find?_cons_of_neg, he, decide_false,
        Bool.false_eq_true, not_false_eq_true]
      abel

theorem sum_pop (d : PyDict κ ν) (f : κ → ν → M) (k : κ) : (d.pop k).sum f = d.sum f - d.weight f k :=
  sum_filter f k d.nodup

theorem sum_put (f : κ → ν → M) (k : κ) (v : ν) (l : List (κ × ν)) :
    ((put k v l).map (fun e => f e.1 e.2)).sum =
      (l.map (fun e => f e.1 e.2)).sum - (((l.find? (fun e => e.1 = k)).map Prod.snd).map (f k)).getD 0 + f k v := by
  induction l with
  | nil => simp [put]
  | cons e l ih =>
    unfold put
    by_cases he : e.1 = k
    · simp [he, add_comm]
    · simp only [he, if_false, List.map_cons, List.sum_cons, ih, List.find?_cons_of_neg, decide_false,
        Bool.false_eq_true, not_false_eq_true]
      abel

theorem sum_set (d : PyDict κ ν) (f : κ → ν → M) (k : κ) (v : ν) :
    (d.set k v).sum f = d.sum f - d.weight f k + f k v :=
  sum_put f k v d.entries

theorem sum_set_new {d : PyDict κ ν} (f : κ → ν → M) {k : κ} (v : ν) (h : d.get? k = none) :
    (d.set k v).sum f = d.sum f + f k v := by
  rw [sum_set, weight_of_none h, sub_zero]

theorem sum_set_old {d : PyDict κ ν} (f : κ → ν → M) {k : κ} (v : ν) {w : ν} (h : d.get? k = some w) :
    (d.set k v).sum f = d.sum f - f k w + f k v := by
  rw [sum_set, weight_of_get? h]

end Sum

section Order

theorem sum_nonneg {d : PyDict κ ν} {f : κ → ν → ℤ} (h : ∀ k v, d.get? k = some v → 0 ≤ f k v) : 0 ≤ d.sum f := by
  apply List.sum_nonneg
  intro x hx
  obtain ⟨e, he, rfl⟩ := List.mem_map.mp hx
  exact h e.1 e.2 (get?_eq_some.mpr he)

theorem le_sum {d : PyDict κ ν} {f : κ → ν → ℤ} (h : ∀ k v, d.get? k = some v → 0 ≤ f k v) {k : κ} {v : ν}
    (hk : d.get? k = some v) : f k v ≤ d.sum f := by
  have hrest : 0 ≤ (d.pop k).sum f := by
    apply sum_nonneg
    intro x w hx
    rw [get?_pop] at hx
    split_ifs at hx
    exact h x w hx
  rw [sum_pop, weight_of_get? hk] at hrest
  omega

theorem sum_le_sum {d : PyDict κ ν} {f g : κ → ν → ℤ} (h : ∀ k v, d.get? k = some v → f k v ≤ g k v) :
    d.sum f ≤ d.sum g := by
  apply List.sum_le_sum
  intro e he
  exact h e.1 e.2 (get?_eq_some.mpr he)

theorem sum_pop_add {d : PyDict κ ν} {f : κ → ν → ℤ} {k : κ} {v : ν} (h : d.get? k = some v) :
    d.sum f = f k v + (d.pop k).sum f := by
  rw [sum_pop, weight_of_get? h]
  omega

theorem sum_congr {M : Type*} [AddCommGroup M] {d : PyDict κ ν} {f g : κ → ν → M}
    (h : ∀ k v, d.get? k = some v → f k v = g k v) : d.sum f = d.sum g := by
  unfold sum
  congr 1
  apply List.map_congr_left
  intro e he
  exact h e.1 e.2 (get?_eq_some.mpr he)

end Order

end PyDict

abbrev PySet (κ : Type*) := PyDict κ Unit

namespace PySet

variable {κ : Type*} [DecidableEq κ]

def add (d : PySet κ) (k : κ) : PySet κ := d.set k ()

def discard (d : PySet κ) (k : κ) : PySet κ := d.pop k

@[simp] theorem mem_keys_add {d : PySet κ} {k x : κ} : x ∈ (d.add k).keys ↔ x = k ∨ x ∈ d.keys := PyDict.mem_keys_set

@[simp] theorem mem_keys_discard {d : PySet κ} {k x : κ} : x ∈ (d.discard k).keys ↔ x ≠ k ∧ x ∈ d.keys :=
  PyDict.mem_keys_pop

end PySet
