import ClawBox.Lib.PyDict
import ClawBox.Lib.PySequence
import ClawBox.Lib.Transition

namespace ClawBox.Knowledge

open PySequence Transition

variable {α : Type*}

def blockSize : ℕ := 64

structure ChunkedSamples (α : Type*) where
  blocks : List (List α)
  tail : List α
  size : ℕ
  full : ∀ b ∈ blocks, b.length = blockSize
  short : tail.length ≤ blockSize
  counted : size = blocks.length * blockSize + tail.length

namespace ChunkedSamples

def empty : ChunkedSamples α := ⟨[], [], 0, by simp, by simp [blockSize], rfl⟩

theorem full_append {bs : List (List α)} {b : List α} (h : ∀ b ∈ bs, b.length = blockSize) (hb : b.length = blockSize) :
    ∀ c ∈ bs ++ [b], c.length = blockSize := by
  intro c hc
  rcases List.mem_append.1 hc with hc | hc
  · exact h c hc
  · rw [List.mem_singleton.1 hc, hb]

def append (c : ChunkedSamples α) (value : α) : ChunkedSamples α :=
  if h : c.tail.length = blockSize then
    { blocks := c.blocks ++ [c.tail], tail := [value], size := c.size + 1
      full := full_append c.full h, short := by simp [blockSize]
      counted := by
        have := c.counted
        simp only [List.length_append, List.length_singleton, blockSize] at h this ⊢
        omega }
  else
    { c with
      tail := c.tail ++ [value], size := c.size + 1
      short := by
        have := c.short
        rw [List.length_append, List.length_singleton]
        omega
      counted := by
        rw [c.counted, List.length_append, List.length_singleton]
        omega }

def extend (c : ChunkedSamples α) (values : List α) : ChunkedSamples α := values.foldl append c

def ofValues (values : List α) : ChunkedSamples α := empty.extend values

def toList (c : ChunkedSamples α) : List α := c.blocks.flatten ++ c.tail

def getitem (c : ChunkedSamples α) (index : ℤ) : Option α :=
  let index := if index < 0 then index + c.size else index
  if ¬ (0 ≤ index ∧ index < c.size) then none
  else
    let block := index.toNat / blockSize
    ((if block < c.blocks.length then c.blocks.getD block [] else c.tail))[index.toNat % blockSize]?

def getslice (c : ChunkedSamples α) (s : Slice) : Option (List α) :=
  (range (s.indices c.size).1 (s.indices c.size).2 s.step).mapM c.getitem

theorem length_toList (c : ChunkedSamples α) : c.toList.length = c.size := by
  rw [toList, List.length_append, length_flatten c.full, c.counted]

theorem toList_append (c : ChunkedSamples α) (value : α) : (c.append value).toList = c.toList ++ [value] := by
  unfold append
  split_ifs with h
  · simp [toList]
  · simp [toList]

theorem toList_extend (c : ChunkedSamples α) (values : List α) : (c.extend values).toList = c.toList ++ values := by
  induction values generalizing c with
  | nil => simp [extend]
  | cons v vs ih =>
    have hcons : c.extend (v :: vs) = (c.append v).extend vs := rfl
    rw [hcons, ih, toList_append, List.append_assoc, List.singleton_append]

theorem getElem?_toList (c : ChunkedSamples α) {i : ℕ} (hi : i < c.size) :
    (if i / blockSize < c.blocks.length then c.blocks.getD (i / blockSize) [] else c.tail)[i % blockSize]? =
    c.toList[i]? := by
  have hpos : 0 < blockSize := by simp [blockSize]
  have hlength := length_flatten c.full
  rw [toList]
  by_cases hblock : i < c.blocks.length * blockSize
  · have hdiv : i / blockSize < c.blocks.length := Nat.div_lt_of_lt_mul (by rwa [Nat.mul_comm])
    rw [if_pos hdiv, List.getElem?_append_left (by omega), getElem?_flatten hpos c.full, List.getD_eq_getElem?_getD,
      List.getElem?_eq_getElem hdiv]
    rfl
  · have hdiv : ¬ i / blockSize < c.blocks.length := by
      rw [Nat.div_lt_iff_lt_mul hpos]
      exact hblock
    have hmod : i % blockSize = i - c.blocks.length * blockSize := by
      by_cases hlast : i - c.blocks.length * blockSize < blockSize
      · conv_lhs => rw [← Nat.add_sub_cancel' (not_lt.1 hblock), Nat.mul_comm, Nat.mul_add_mod]
        rw [Nat.mul_comm]
        exact Nat.mod_eq_of_lt hlast
      · have hcounted := c.counted
        have hshort := c.short
        omega
    rw [if_neg hdiv, List.getElem?_append_right (by omega), hlength, hmod]

theorem getitem_eq (c : ChunkedSamples α) (i : ℤ) : c.getitem i = item c.toList i := by
  simp only [getitem, item, length_toList]
  generalize (if i < 0 then i + (c.size : ℤ) else i) = j
  by_cases h : 0 ≤ j ∧ j < c.size
  · rw [if_neg (not_not.2 h), if_pos h]
    exact c.getElem?_toList (by omega)
  · rw [if_pos h, if_neg h]

end ChunkedSamples

/-- `base` is what was published, a delta that of the writer. -/
structure SharedSequence (α : Type*) where
  base : List α
  delta : ChunkedSamples α

namespace SharedSequence

def onto (base delta : List α) : SharedSequence α := ⟨base, .ofValues delta⟩

def extend (s : SharedSequence α) (delta : List α) : SharedSequence α := ⟨s.base, s.delta.extend delta⟩

def length (s : SharedSequence α) : ℕ := s.base.length + s.delta.size

def toList (s : SharedSequence α) : List α := s.base ++ s.delta.toList

def getitem (s : SharedSequence α) (index : ℤ) : Option α :=
  let index := if index < 0 then index + s.length else index
  if index < 0 ∨ s.length ≤ index then none
  else if index < s.base.length then item s.base index
  else s.delta.getitem (index - s.base.length)

def getslice (s : SharedSequence α) (x : Slice) : Option (List α) :=
  (range (x.indices s.length).1 (x.indices s.length).2 x.step).mapM s.getitem

theorem length_toList (s : SharedSequence α) : s.toList.length = s.length := by
  rw [toList, List.length_append, s.delta.length_toList, length]

theorem getitem_eq (s : SharedSequence α) (i : ℤ) : s.getitem i = item s.toList i := by
  have hitem : item s.toList i = if 0 ≤ (if i < 0 then i + (s.length : ℤ) else i) ∧
      (if i < 0 then i + (s.length : ℤ) else i) < s.length then
      s.toList[(if i < 0 then i + (s.length : ℤ) else i).toNat]?
      else none := by
    simp only [item, length_toList]
  rw [hitem, getitem]
  generalize (if i < 0 then i + (s.length : ℤ) else i) = j
  by_cases h : j < 0 ∨ s.length ≤ j
  · rw [if_pos h, if_neg]
    omega
  · have hin : 0 ≤ j ∧ j < s.length := by omega
    rw [if_neg h, if_pos hin, toList]
    by_cases hbase : j < s.base.length
    · rw [if_pos hbase, item_of_nonneg _ (by omega), List.getElem?_append_left (by omega)]
    · rw [if_neg hbase, ChunkedSamples.getitem_eq, item_of_nonneg _ (by omega), List.getElem?_append_right (by omega)]
      congr 1
      omega

end SharedSequence

/-- Every sequence over published evidence reads as the plain sequence of its items, at every index and slice, and
what is appended in a fork comes behind them. -/
theorem sequences_refine (s : SharedSequence α) (values : List α) :
    (s.extend values).toList = s.toList ++ values ∧ s.length = s.toList.length ∧ (∀ i, s.getitem i = item s.toList i) ∧
      (∀ x, s.getslice x = some (slice s.toList x)) ∧
      (s.delta.extend values).toList = s.delta.toList ++ values ∧ s.delta.size = s.delta.toList.length ∧
      (∀ i, s.delta.getitem i = item s.delta.toList i) ∧ ∀ x, s.delta.getslice x = some (slice s.delta.toList x) := by
  refine ⟨?_, s.length_toList.symm, s.getitem_eq, ?_, s.delta.toList_extend values, s.delta.length_toList.symm,
    s.delta.getitem_eq, ?_⟩
  · rw [SharedSequence.toList, SharedSequence.extend, ChunkedSamples.toList_extend, SharedSequence.toList,
      List.append_assoc]
  · intro x
    rw [SharedSequence.getslice, ← s.length_toList]
    exact mapM_item s.toList x s.getitem_eq
  · intro x
    rw [ChunkedSamples.getslice, ← s.delta.length_toList]
    exact mapM_item s.delta.toList x s.delta.getitem_eq

variable {κ ν : Type*} [DecidableEq κ]

/-- `base` is the place of a `dict`; the functions below take what that holds as `b`. -/
structure OverlayMap (κ ν : Type*) where
  base : ℕ
  delta : PyDict κ ν
  extraSize : ℕ

namespace OverlayMap

def make (base : ℕ) (b delta : PyDict κ ν) : OverlayMap κ ν := ⟨base, delta, (delta.keys.filter (· ∉ b.keys)).length⟩

def getitem (o : OverlayMap κ ν) (b : PyDict κ ν) (key : κ) : Option ν :=
  if key ∈ o.delta.keys then o.delta.get? key else b.get? key

def setitem (o : OverlayMap κ ν) (b : PyDict κ ν) (key : κ) (value : ν) : OverlayMap κ ν :=
  let extraSize := if key ∉ o.delta.keys ∧ key ∉ b.keys then o.extraSize + 1 else o.extraSize
  { o with delta := o.delta.set key value, extraSize := extraSize }

def iter (o : OverlayMap κ ν) (b : PyDict κ ν) : List κ := b.keys ++ o.delta.keys.filter (· ∉ b.keys)

def length (o : OverlayMap κ ν) (b : PyDict κ ν) : ℕ := b.keys.length + o.extraSize

def contains (o : OverlayMap κ ν) (b : PyDict κ ν) (key : κ) : Bool := key ∈ o.delta.keys ∨ key ∈ b.keys

def copy (o : OverlayMap κ ν) (b : PyDict κ ν) : OverlayMap κ ν :=
  { make o.base b ∅ with delta := o.delta, extraSize := o.extraSize }

def value (o : OverlayMap κ ν) (b : PyDict κ ν) : PyDict κ ν := b.update o.delta

def Counted (o : OverlayMap κ ν) (b : PyDict κ ν) : Prop := o.extraSize = (o.delta.keys.filter (· ∉ b.keys)).length

@[simp] theorem base_setitem (o : OverlayMap κ ν) (b : PyDict κ ν) (k : κ) (v : ν) : (o.setitem b k v).base = o.base :=
  rfl

@[simp] theorem copy_eq (o : OverlayMap κ ν) (b : PyDict κ ν) : o.copy b = o := rfl

theorem value_setitem (o : OverlayMap κ ν) (b : PyDict κ ν) (k : κ) (v : ν) :
    (o.setitem b k v).value b = (o.value b).set k v :=
  PyDict.update_set b o.delta k v

theorem counted_setitem {o : OverlayMap κ ν} {b : PyDict κ ν} (h : o.Counted b) (k : κ) (v : ν) :
    (o.setitem b k v).Counted b := by
  have hsize := h
  unfold Counted at hsize ⊢
  simp only [setitem, PyDict.keys_set]
  by_cases hd : k ∈ o.delta.keys
  · simp [hd, hsize]
  · by_cases hb : k ∈ b.keys
    · simp [hd, hb, hsize]
    · simp [hd, hb, hsize]

theorem getitem_eq (o : OverlayMap κ ν) (b : PyDict κ ν) (k : κ) : o.getitem b k = (o.value b).get? k := by
  rw [value, PyDict.get?_update, getitem]
  split_ifs with h
  · obtain ⟨v, hv⟩ := Option.isSome_iff_exists.1 (PyDict.mem_keys.1 h)
    simp [hv]
  · simp [PyDict.get?_eq_none.2 h]

theorem iter_eq (o : OverlayMap κ ν) (b : PyDict κ ν) : o.iter b = (o.value b).keys := by
  rw [value, PyDict.keys_update, iter]

theorem length_eq {o : OverlayMap κ ν} {b : PyDict κ ν} (h : o.Counted b) : o.length b = (o.value b).keys.length := by
  rw [← iter_eq, iter, List.length_append, length, h]

theorem contains_eq (o : OverlayMap κ ν) (b : PyDict κ ν) (k : κ) : o.contains b k = decide (k ∈ (o.value b).keys) := by
  rw [← iter_eq, iter, contains]
  apply decide_eq_decide.2
  simp only [List.mem_append, List.mem_filter, decide_eq_true_eq]
  tauto

end OverlayMap

inductive Handle
  | dict (i : ℕ)
  | overlay (i : ℕ)
  deriving DecidableEq

def Handle.isOverlay : Handle → Bool
  | .dict _ => false
  | .overlay _ => true

structure Mappings (κ ν : Type*) where
  dicts : List (PyDict κ ν)
  overlays : List (OverlayMap κ ν)

inductive MappingOp (κ ν : Type*)
  | dict (d : PyDict κ ν)
  | overlay (base : ℕ) (delta : PyDict κ ν)
  | fork (value : Handle) (shared : Bool)
  | set (value : Handle) (key : κ) (v : ν)

namespace Mappings

def empty : Mappings κ ν := ⟨[], []⟩

def base (h : Mappings κ ν) (o : OverlayMap κ ν) : PyDict κ ν := h.dicts.getD o.base ∅

def addDict (h : Mappings κ ν) (d : PyDict κ ν) : Mappings κ ν := { h with dicts := h.dicts ++ [d] }

def addOverlay (h : Mappings κ ν) (o : OverlayMap κ ν) : Mappings κ ν := { h with overlays := h.overlays ++ [o] }

def forkMap (h : Mappings κ ν) (value : Handle) (shared : Bool) : Option (Mappings κ ν) :=
  match value with
  | .overlay i => h.overlays[i]?.map fun o => h.addOverlay (o.copy (h.base o))
  | .dict i => h.dicts[i]?.map fun d => if shared then h.addOverlay (.make i d ∅) else h.addDict d

def setitem (h : Mappings κ ν) (value : Handle) (key : κ) (v : ν) : Option (Mappings κ ν) :=
  match value with
  | .overlay i => h.overlays[i]?.map fun o => { h with overlays := h.overlays.set i (o.setitem (h.base o) key v) }
  | .dict i => h.dicts[i]?.map fun d => { h with dicts := h.dicts.set i (d.set key v) }

def next (h : Mappings κ ν) : MappingOp κ ν → Option (Mappings κ ν)
  | .dict d => some (h.addDict d)
  | .overlay base delta => h.dicts[base]?.map fun b => h.addOverlay (.make base b delta)
  | .fork value shared => h.forkMap value shared
  | .set value key v => h.setitem value key v

def read {β : Type*} (h : Mappings κ ν) (ofDict : PyDict κ ν → β) (ofOverlay : OverlayMap κ ν → PyDict κ ν → β) :
    Handle → Option β
  | .dict i => h.dicts[i]?.map ofDict
  | .overlay i => h.overlays[i]?.map fun o => ofOverlay o (h.base o)

def getitem (h : Mappings κ ν) (a : Handle) (key : κ) : Option (Option ν) := h.read (·.get? key) (·.getitem · key) a

def contains (h : Mappings κ ν) (a : Handle) (key : κ) : Option Bool := h.read (key ∈ ·.keys) (·.contains · key) a

def iter (h : Mappings κ ν) (a : Handle) : Option (List κ) := h.read (·.keys) (·.iter ·) a

def length (h : Mappings κ ν) (a : Handle) : Option ℕ := h.read (·.keys.length) (·.length ·) a

def system : System (Mappings κ ν) (MappingOp κ ν) := ⟨(· = empty), fun h a t => h.next a = some t⟩

def Published (h : Mappings κ ν) (i : ℕ) : Prop := ∃ o ∈ h.overlays, o.base = i

instance (h : Mappings κ ν) (i : ℕ) : Decidable (h.Published i) :=
  inferInstanceAs (Decidable (∃ o ∈ h.overlays, o.base = i))

/-- "Published containers must not subsequently be modified by their writer." -/
def allowed (h : Mappings κ ν) : MappingOp κ ν → Prop
  | .set (.dict i) _ _ => ¬ h.Published i
  | _ => True

instance (h : Mappings κ ν) (op : MappingOp κ ν) : Decidable (h.allowed op) :=
  match op with
  | .set (.dict i) _ _ => inferInstanceAs (Decidable (¬ h.Published i))
  | .set (.overlay _) _ _ => isTrue trivial
  | .dict _ => isTrue trivial
  | .overlay _ _ => isTrue trivial
  | .fork _ _ => isTrue trivial

end Mappings

structure Copies (κ ν : Type*) where
  dicts : List (PyDict κ ν)
  overlays : List (PyDict κ ν)

namespace Copies

def empty : Copies κ ν := ⟨[], []⟩

def get? (c : Copies κ ν) : Handle → Option (PyDict κ ν)
  | .dict i => c.dicts[i]?
  | .overlay i => c.overlays[i]?

def next (c : Copies κ ν) : MappingOp κ ν → Option (Copies κ ν)
  | .dict d => some { c with dicts := c.dicts ++ [d] }
  | .overlay base delta => c.dicts[base]?.map fun b => { c with overlays := c.overlays ++ [b.update delta] }
  | .fork value shared => (c.get? value).map fun d =>
    if shared ∨ value.isOverlay then { c with overlays := c.overlays ++ [d] } else { c with dicts := c.dicts ++ [d] }
  | .set (.dict i) key v => c.dicts[i]?.map fun d => { c with dicts := c.dicts.set i (d.set key v) }
  | .set (.overlay i) key v => c.overlays[i]?.map fun d => { c with overlays := c.overlays.set i (d.set key v) }

def system : System (Copies κ ν) (MappingOp κ ν) := ⟨(· = empty), fun c a d => c.next a = some d⟩

end Copies

namespace Mappings

def copies (h : Mappings κ ν) : Copies κ ν := ⟨h.dicts, h.overlays.map fun o => o.value (h.base o)⟩

def Sound (h : Mappings κ ν) : Prop := ∀ o ∈ h.overlays, o.base < h.dicts.length ∧ o.Counted (h.base o)

theorem base_addDict {h : Mappings κ ν} (hs : h.Sound) (d : PyDict κ ν) {o : OverlayMap κ ν} (ho : o ∈ h.overlays) :
    (h.addDict d).base o = h.base o := by
  have hlt := (hs o ho).1
  simp [base, addDict, List.getElem?_append_left hlt]

omit [DecidableEq κ] in
theorem base_setDict {h : Mappings κ ν} {i : ℕ} (hi : ¬ h.Published i) (d : PyDict κ ν) {o : OverlayMap κ ν}
    (ho : o ∈ h.overlays) : base { h with dicts := h.dicts.set i d } o = h.base o := by
  have hne : i ≠ o.base := fun he => hi ⟨o, ho, he.symm⟩
  simp [base, List.getElem?_set_ne hne]

omit [DecidableEq κ] in
theorem base_of_getElem? {h : Mappings κ ν} {i : ℕ} {d : PyDict κ ν} (hd : h.dicts[i]? = some d) {o : OverlayMap κ ν}
    (ho : o.base = i) : h.base o = d := by
  simp [base, ho, hd]

theorem sound_addDict {h : Mappings κ ν} (hs : h.Sound) (d : PyDict κ ν) : (h.addDict d).Sound := by
  intro o ho
  obtain ⟨hlt, hc⟩ := hs o ho
  rw [base_addDict hs d ho]
  refine ⟨?_, hc⟩
  rw [addDict, List.length_append]
  omega

theorem sound_addOverlay {h : Mappings κ ν} (hs : h.Sound) {o : OverlayMap κ ν} (hlt : o.base < h.dicts.length)
    (hc : o.Counted (h.base o)) : (h.addOverlay o).Sound := by
  intro x hx
  rcases List.mem_append.1 hx with hx | hx
  · exact hs x hx
  · rw [List.mem_singleton.1 hx]
    exact ⟨hlt, hc⟩

theorem sound_make {h : Mappings κ ν} (hs : h.Sound) {i : ℕ} {b : PyDict κ ν} (hb : h.dicts[i]? = some b)
    (delta : PyDict κ ν) :
    (h.addOverlay (.make i b delta)).Sound := by
  apply sound_addOverlay hs
  · exact (List.getElem?_eq_some_iff.1 hb).1
  · rw [base_of_getElem? hb rfl]
    rfl

theorem sound_setOverlay {h : Mappings κ ν} (hs : h.Sound) {i : ℕ} {o : OverlayMap κ ν} (ho : h.overlays[i]? = some o)
    (k : κ) (v : ν) : Sound { h with overlays := h.overlays.set i (o.setitem (h.base o) k v) } := by
  intro x hx
  obtain ⟨hlt, hc⟩ := hs o (List.mem_of_getElem? ho)
  rcases List.mem_or_eq_of_mem_set hx with hx | rfl
  · exact hs x hx
  · exact ⟨hlt, OverlayMap.counted_setitem hc k v⟩

theorem sound_setDict {h : Mappings κ ν} (hs : h.Sound) {i : ℕ} (hi : ¬ h.Published i) (d : PyDict κ ν) :
    Sound { h with dicts := h.dicts.set i d } := by
  intro o ho
  obtain ⟨hlt, hc⟩ := hs o ho
  rw [base_setDict hi d ho]
  exact ⟨by simpa using hlt, hc⟩

theorem copies_addDict {h : Mappings κ ν} (hs : h.Sound) (d : PyDict κ ν) :
    (h.addDict d).copies = { h.copies with dicts := h.dicts ++ [d] } := by
  simp only [copies, Copies.mk.injEq]
  refine ⟨rfl, List.map_congr_left ?_⟩
  intro o ho
  rw [base_addDict hs d ho]

theorem copies_addOverlay (h : Mappings κ ν) (o : OverlayMap κ ν) :
    (h.addOverlay o).copies = { h.copies with overlays := h.copies.overlays ++ [o.value (h.base o)] } := by
  simp [copies, addOverlay, base]

theorem copies_setDict {h : Mappings κ ν} {i : ℕ} (hi : ¬ h.Published i) (d : PyDict κ ν) :
    copies { h with dicts := h.dicts.set i d } = { h.copies with dicts := h.dicts.set i d } := by
  simp only [copies, Copies.mk.injEq, true_and]
  apply List.map_congr_left
  intro o ho
  rw [base_setDict hi d ho]

theorem copies_setOverlay (h : Mappings κ ν) (i : ℕ) (o : OverlayMap κ ν) (k : κ) (v : ν) :
    copies { h with overlays := h.overlays.set i (o.setitem (h.base o) k v) } =
      { h.copies with overlays := h.copies.overlays.set i ((o.value (h.base o)).set k v) } := by
  simp only [copies, Copies.mk.injEq, List.map_set, true_and]
  have hbase : ∀ x : OverlayMap κ ν, base { h with overlays := h.overlays.set i (o.setitem (h.base o) k v) } x =
    h.base x :=
    fun _ => rfl
  have hself : h.base (o.setitem (h.base o) k v) = h.base o := rfl
  simp only [hbase, hself, OverlayMap.value_setitem]

theorem sound_step {h t : Mappings κ ν} {op : MappingOp κ ν} (hs : h.Sound) (hok : h.allowed op)
    (hn : h.next op = some t) :
    t.Sound := by
  cases op with
  | dict d =>
    cases hn
    exact sound_addDict hs d
  | overlay i delta =>
    obtain ⟨b, hb, rfl⟩ := Option.map_eq_some_iff.1 hn
    exact sound_make hs hb delta
  | fork a shared =>
    cases a with
    | overlay i =>
      obtain ⟨o, ho, rfl⟩ := Option.map_eq_some_iff.1 hn
      obtain ⟨hlt, hc⟩ := hs o (List.mem_of_getElem? ho)
      exact sound_addOverlay hs hlt hc
    | dict i =>
      obtain ⟨d, hd, rfl⟩ := Option.map_eq_some_iff.1 hn
      split_ifs
      · exact sound_make hs hd ∅
      · exact sound_addDict hs d
  | set a k v =>
    cases a with
    | overlay i =>
      obtain ⟨o, ho, rfl⟩ := Option.map_eq_some_iff.1 hn
      exact sound_setOverlay hs ho k v
    | dict i =>
      obtain ⟨d, -, rfl⟩ := Option.map_eq_some_iff.1 hn
      exact sound_setDict hs hok _

theorem copies_step {h t : Mappings κ ν} {op : MappingOp κ ν} (hs : h.Sound) (hok : h.allowed op)
    (hn : h.next op = some t) :
    h.copies.next op = some t.copies := by
  cases op with
  | dict d =>
    cases hn
    rw [copies_addDict hs]
    rfl
  | overlay i delta =>
    obtain ⟨b, hb, rfl⟩ := Option.map_eq_some_iff.1 hn
    have hbase : h.base (.make i b delta) = b := base_of_getElem? hb rfl
    rw [copies_addOverlay, hbase]
    exact Option.map_eq_some_iff.2 ⟨b, hb, rfl⟩
  | fork a shared =>
    cases a with
    | overlay i =>
      obtain ⟨o, ho, rfl⟩ := Option.map_eq_some_iff.1 hn
      have hget : h.copies.get? (.overlay i) = some (o.value (h.base o)) := by
        simp [Copies.get?, copies, ho]
      rw [copies_addOverlay, Copies.next, hget]
      simp [Handle.isOverlay]
    | dict i =>
      obtain ⟨d, hd, rfl⟩ := Option.map_eq_some_iff.1 hn
      have hget : h.copies.get? (.dict i) = some d := hd
      rw [Copies.next, hget]
      by_cases hshared : shared
      · have hbase : h.base (.make i d ∅) = d := base_of_getElem? hd rfl
        have hvalue : (OverlayMap.make i d ∅).value d = d := PyDict.update_empty d
        rw [if_pos hshared, copies_addOverlay, hbase, hvalue]
        simp [hshared]
      · rw [if_neg hshared, copies_addDict hs]
        simp [hshared, Handle.isOverlay, copies]
  | set a k v =>
    cases a with
    | overlay i =>
      obtain ⟨o, ho, rfl⟩ := Option.map_eq_some_iff.1 hn
      have hget : h.copies.overlays[i]? = some (o.value (h.base o)) := by
        simp [copies, ho]
      rw [copies_setOverlay, Copies.next, hget]
      rfl
    | dict i =>
      obtain ⟨d, hd, rfl⟩ := Option.map_eq_some_iff.1 hn
      have hget : h.copies.dicts[i]? = some d := hd
      rw [copies_setDict hok, Copies.next, hget]
      rfl

theorem read_eq {β : Type*} {h : Mappings κ ν} (hs : h.Sound) {ofDict : PyDict κ ν → β}
    {ofOverlay : OverlayMap κ ν → PyDict κ ν → β} (heq : ∀ o b, o.Counted b → ofOverlay o b = ofDict (o.value b))
    (a : Handle) :
    h.read ofDict ofOverlay a = (h.copies.get? a).map ofDict := by
  cases a with
  | dict i => rfl
  | overlay i =>
    have hget : h.copies.get? (.overlay i) = h.overlays[i]?.map fun o => o.value (h.base o) := List.getElem?_map
    rw [hget, Option.map_map, read]
    apply Option.map_congr
    intro o ho
    exact heq o _ (hs o (List.mem_of_getElem? ho)).2

end Mappings

/-- As long as no dictionary is written once an overlay stands on it, the mappings behave as if every fork were a
dictionary of its own: they take the same steps, and they read as that dictionary, in its order. -/
theorem overlays_refine {ops : List (MappingOp κ ν)} {h : Mappings κ ν}
    (hr : Run (Mappings.system.restrict Mappings.allowed) Mappings.empty ops h) :
    Run Copies.system Copies.empty ops h.copies ∧ ∀ a, (∀ k, h.getitem a k = (h.copies.get? a).map (·.get? k)) ∧
      (∀ k, h.contains a k = (h.copies.get? a).map fun d => decide (k ∈ d.keys)) ∧
      h.iter a = (h.copies.get? a).map (·.keys) ∧
      h.length a = (h.copies.get? a).map (·.keys.length) := by
  have hempty : (Mappings.empty : Mappings κ ν).Sound := by
    intro o ho
    cases ho
  have hstep : ∀ (s : Mappings κ ν) a t, s.Sound → (Mappings.system.restrict Mappings.allowed).step s a t → t.Sound :=
    fun s a t hs ht => Mappings.sound_step hs ht.2 ht.1
  have hs : h.Sound := hr.invariant hstep hempty
  constructor
  · exact hr.map Mappings.copies hstep (fun s a t hs ht => Mappings.copies_step hs ht.2 ht.1) hempty
  · intro a
    refine ⟨fun k => ?_, fun k => ?_, ?_, ?_⟩
    · exact Mappings.read_eq hs (fun o b _ => o.getitem_eq b k) a
    · have hcontains : ∀ (o : OverlayMap κ ν) b, o.Counted b → o.contains b k = decide (k ∈ (o.value b).keys) :=
        fun o b _ => o.contains_eq b k
      exact Mappings.read_eq hs hcontains a
    · exact Mappings.read_eq hs (fun o b _ => o.iter_eq b) a
    · exact Mappings.read_eq hs (fun o b hc => OverlayMap.length_eq hc) a

theorem overlays_refine_fork : ∃ h : Mappings ℕ ℕ, h.getitem (.overlay 0) 2 = some (some 20) ∧
    h.getitem (.overlay 1) 2 = some (some 21) ∧ h.iter (.overlay 1) = some [1, 2] ∧ h.length (.overlay 0) = some 2 ∧
    h.getitem (.dict 0) 1 = some (some 10) := by
  have hr : Run (Mappings.system.restrict Mappings.allowed) (Mappings.empty :
      Mappings ℕ ℕ) [.dict (PyDict.empty.set 1 10), .fork (.dict 0) true, .set (.overlay 0) 1 11,
      .set (.overlay 0) 2 20, .fork (.overlay 0) true, .set (.overlay 1) 2 21] _ := run_of_foldlM rfl
  have hread := (overlays_refine hr).2
  refine ⟨_, (hread (.overlay 0)).1 2, (hread (.overlay 1)).1 2, (hread (.overlay 1)).2.2.1, (hread (.overlay 0)).2.2.2,
    (hread (.dict 0)).1 1⟩

end ClawBox.Knowledge
