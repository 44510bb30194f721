import ClawBox.Knowledge.Layers

namespace ClawBox.Knowledge

def Tree (κ α : Type) : ℕ → Type
  | 0 => List α
  | n + 1 => PyDict κ (Tree κ α n)

variable {κ α : Type} [DecidableEq κ]

namespace Tree

def empty : (n : ℕ) → Tree κ α n
  | 0 => ([] : List α)
  | _ + 1 => (∅ : PyDict κ _)

def grow : (n : ℕ) → List κ → α → Tree κ α n → Tree κ α n
  | 0, _, value, (l : List α) => l ++ [value]
  | _ + 1, [], _, d => d
  | n + 1, k :: ks, value, (d : PyDict κ (Tree κ α n)) =>
    PyDict.set d k (grow n ks value ((PyDict.get? d k).getD (empty n)))

def grown (n : ℕ) (t : Tree κ α n) (rows : List (List κ × α)) : Tree κ α n := rows.foldl (fun t r => grow n r.1 r.2 t) t

def view : (n : ℕ) → Tree κ α n → Tree κ α n → Tree κ α n
  | 0, (base : List α), (delta : List α) => (SharedSequence.onto base delta).toList
  | n + 1, (base : PyDict κ (Tree κ α n)), (delta : PyDict κ (Tree κ α n)) =>
    PyDict.update base (PyDict.mapValues delta fun k y => (PyDict.get? base k).elim y fun x => view n x y)

theorem view_zero (base delta : List α) : view (κ := κ) 0 base delta = base ++ delta := by
  have hdelta : (ChunkedSamples.ofValues delta).toList = delta := by
    rw [ChunkedSamples.ofValues, ChunkedSamples.toList_extend]
    rfl
  rw [view, SharedSequence.toList, SharedSequence.onto, hdelta]

theorem view_empty (n : ℕ) (base : Tree κ α n) : view n base (empty n) = base := by
  cases n with
  | zero => exact (view_zero base []).trans (List.append_nil _)
  | succ n => exact PyDict.update_empty _

theorem view_set (n : ℕ) (base delta : PyDict κ (Tree κ α n)) (k : κ) (t : Tree κ α n) :
    view (n + 1) base (delta.set k t) = PyDict.set (view (n + 1) base delta) k
    ((base.get? k).elim t fun x => view n x t) := by
  rw [view, view, PyDict.mapValues_set, PyDict.update_set]

theorem get?_view (n : ℕ) (base delta : PyDict κ (Tree κ α n)) (k : κ) :
    (PyDict.get? (view (n + 1) base delta) k).getD (empty n) =
      (base.get? k).elim ((delta.get? k).getD (empty n)) fun x => view n x ((delta.get? k).getD (empty n)) := by
  rw [view, PyDict.get?_update, PyDict.get?_mapValues]
  cases delta.get? k with
  | some y => rfl
  | none =>
    cases base.get? k with
    | none => rfl
    | some x => exact (view_empty n x).symm

theorem view_grow (n : ℕ) (ks : List κ) (value : α) (base delta : Tree κ α n) :
    view n base (grow n ks value delta) = grow n ks value (view n base delta) := by
  induction n generalizing ks with
  | zero =>
    have hassoc := (List.append_assoc (base : List α) delta [value]).symm
    exact (view_zero base _).trans (hassoc.trans (congrArg (· ++ [value]) (view_zero base delta).symm))
  | succ n ih =>
    cases ks with
    | nil => rfl
    | cons k ks =>
      have hset := view_set n base delta k (grow n ks value ((PyDict.get? delta k).getD (empty n)))
      have hget := get?_view n base delta k
      have hgrow : ∀ d : Tree κ α (n + 1), grow (n + 1) (k :: ks) value d =
          PyDict.set d k (grow n ks value ((PyDict.get? d k).getD (empty n))) := fun _ => rfl
      rw [hgrow, hset, hgrow, hget]
      cases PyDict.get? base k with
      | none => rfl
      | some x =>
        simp only [Option.elim_some]
        rw [ih]

theorem view_grown (n : ℕ) (rows : List (List κ × α)) (base delta : Tree κ α n) :
    view n base (grown n delta rows) = grown n (view n base delta) rows := by
  induction rows generalizing delta with
  | nil => rfl
  | cons r rows ih =>
    have hcons : ∀ t : Tree κ α n, grown n t (r :: rows) = grown n (grow n r.1 r.2 t) rows := fun _ => rfl
    rw [hcons, hcons, ih, view_grow]

end Tree

structure RepositoryTransaction (κ : Type) [DecidableEq κ] where
  data : PyDict κ ℕ
  depth : ℕ
  owned : PySet κ
  sealed : Bool
  inside : ∀ k ∈ owned.keys, k ∈ data.keys

namespace RepositoryTransaction

def onto (data : PyDict κ ℕ) (depth : ℕ) : RepositoryTransaction κ := ⟨data, depth, ∅, false, fun k hk => by cases hk⟩

theorem inside_take (r : RepositoryTransaction κ) (key : κ) (b : ℕ) : ∀ k ∈ (r.owned.add key).keys,
    k ∈ (r.data.set key b).keys := by
  intro k hk
  rcases PySet.mem_keys_add.1 hk with rfl | hk
  · exact PyDict.mem_keys_set.2 (.inl rfl)
  · exact PyDict.mem_keys_set.2 (.inr (r.inside k hk))

def take (r : RepositoryTransaction κ) (key : κ) (b : ℕ) : RepositoryTransaction κ :=
  { r with data := r.data.set key b, owned := r.owned.add key, inside := r.inside_take key b }

@[simp] theorem data_take (r : RepositoryTransaction κ) (k : κ) (b : ℕ) : (r.take k b).data = r.data.set k b := rfl

@[simp] theorem owned_take (r : RepositoryTransaction κ) (k : κ) (b : ℕ) : (r.take k b).owned = r.owned.add k := rfl

@[simp] theorem data_onto (d : PyDict κ ℕ) (n : ℕ) : (onto d n).data = d := rfl

@[simp] theorem sealed_onto (d : PyDict κ ℕ) (n : ℕ) : (onto d n).sealed = false := rfl

theorem take_self {r : RepositoryTransaction κ} {k : κ} {b : ℕ} (hb : r.data.get? k = some b) (hk : k ∈ r.owned.keys) :
    r.take k b = r := by
  obtain ⟨u, hu⟩ := Option.isSome_iff_exists.1 (PyDict.mem_keys.1 hk)
  have hdata := PyDict.set_of_get? hb
  have howned : r.owned.add k = r.owned := PyDict.set_of_get? hu
  cases r
  simp only [take, mk.injEq]
  exact ⟨hdata, trivial, howned, trivial⟩

end RepositoryTransaction

/-- What lies at an address: plain containers, and those over published evidence. -/
inductive Container (κ α : Type) [DecidableEq κ]
  | dict (d : PyDict κ ℕ)
  | list (l : List α)
  | repo (r : RepositoryTransaction κ)
  | samples (c : ChunkedSamples α)

abbrev Heap (κ α : Type) [DecidableEq κ] := List (Container κ α)

namespace Heap

def repo? (h : Heap κ α) (a : ℕ) : Option (RepositoryTransaction κ) :=
  match h[a]? with
  | some (.repo r) => some r
  | _ => none

def dataOf (h : Heap κ α) (source : ℕ) : Option (PyDict κ ℕ) :=
  match h[source]? with
  | some (.repo r) => some r.data
  | some (.dict d) => some d
  | _ => none

def samplesOf (h : Heap κ α) (values : ℕ) : Option (ChunkedSamples α) :=
  match h[values]? with
  | some (.samples c) => some c
  | some (.list l) => some (.ofValues l)
  | _ => none

def transaction (h : Heap κ α) (source depth : ℕ) : Option (Container κ α) :=
  (h.dataOf source).map fun d => .repo (.onto d depth)

def branch (h : Heap κ α) (value depth : ℕ) : Option (Container κ α) :=
  if depth > 1 then h.transaction value (depth - 1) else (h.samplesOf value).map .samples

def adopt (h : Heap κ α) (self : ℕ) (r : RepositoryTransaction κ) (key : κ) (value : ℕ) : Option (Heap κ α × ℕ) :=
  (h.branch value r.depth).map fun b =>
    ((h ++ [b]).set self (.repo (r.take key h.length)), h.length)

def getitem (h : Heap κ α) (self : ℕ) (key : κ) : Option (Heap κ α × ℕ) :=
  (h.repo? self).bind fun r => (r.data.get? key).bind fun value =>
    if r.sealed = false ∧ key ∉ r.owned.keys then h.adopt self r key value else some (h, value)

def setitem (h : Heap κ α) (self : ℕ) (key : κ) (value : ℕ) : Option (Heap κ α) :=
  (h.repo? self).bind fun r => if r.sealed then none else (h.adopt self r key value).map Prod.fst

def setdefault (h : Heap κ α) (self : ℕ) (key : κ) (default : ℕ) : Option (Heap κ α × ℕ) :=
  (h.repo? self).bind fun r =>
    (if key ∉ r.data.keys then h.setitem self key default else some h).bind fun h => h.getitem self key

def append (h : Heap κ α) (self : ℕ) (value : α) : Option (Heap κ α) :=
  match h[self]? with
  | some (.samples c) => some (h.set self (.samples (c.append value)))
  | some (.list l) => some (h.set self (.list (l ++ [value])))
  | _ => none

def default (ks : List κ) : Container κ α := if ks.isEmpty then .list [] else .dict ∅

def ingest (h : Heap κ α) (self : ℕ) : List κ → α → Option (Heap κ α)
  | [], value => h.append self value
  | k :: ks, value => (setdefault (h ++ [default ks]) self k h.length).bind fun r => ingest r.1 r.2 ks value

def walk (h : Heap κ α) (self : ℕ) : List κ → Option (Heap κ α × ℕ)
  | [] => some (h, self)
  | k :: ks => (h.getitem self k).bind fun r => walk r.1 r.2 ks

def sealRepo (h : Heap κ α) : ℕ → ℕ → Heap κ α
  | 0, _ => h
  | n + 1, self =>
    match h.repo? self with
    | none => h
    | some r =>
      let h := if r.depth > 1 then r.owned.keys.foldl (fun h key => (r.data.get? key).elim h (sealRepo h n)) h else h
      h.set self (.repo { r with sealed := true })

def tree (h : Heap κ α) : (n : ℕ) → ℕ → Tree κ α n
  | 0, a =>
    match h[a]? with
    | some (.list l) => l
    | some (.samples c) => c.toList
    | _ => ([] : List α)
  | n + 1, a => ((h.dataOf a).getD ∅).mapValues fun _ b => tree h n b

end Heap

end ClawBox.Knowledge
