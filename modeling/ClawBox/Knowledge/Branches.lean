import ClawBox.Knowledge.Repository

namespace ClawBox.Knowledge

variable {κ α : Type} [DecidableEq κ]

/-- Where an object stands: published for good, or private to the repository `owner`, at this path below it and under
this parent. -/
structure Mark (κ : Type) where
  frozen : Prop
  owner : ℕ
  path : List κ
  parent : ℕ
  level : ℕ

def Container.Placed (g : ℕ → Mark κ) (a : ℕ) (m : Mark κ) (size : ℕ) : Container κ α → Prop
  | .dict d => m.frozen ∧ 0 < m.level ∧ ∀ k b, d.get? k = some b → b < size ∧ (g b).level + 1 = m.level ∧ (g b).frozen
  | .list _ => m.frozen ∧ m.level = 0
  | .samples _ => m.level = 0
  | .repo r => m.level = r.depth ∧ 0 < r.depth ∧ (r.sealed = true ↔ m.frozen) ∧
      ∀ k b, r.data.get? k = some b → b < size ∧ (g b).level + 1 = m.level ∧
        ((m.frozen ∨ k ∉ r.owned.keys) → (g b).frozen) ∧
        (¬ m.frozen → k ∈ r.owned.keys → ¬ (g b).frozen ∧ (g b).owner = m.owner ∧ (g b).path = m.path ++ [k] ∧
          (g b).parent = a)

theorem Container.Placed.mono {g g' : ℕ → Mark κ} {a : ℕ} {m : Mark κ} {size size' : ℕ} {o : Container κ α}
    (h : o.Placed g a m size)
    (hg : ∀ b, b < size → g' b = g b) (hsize : size ≤ size') : o.Placed g' a m size' := by
  cases o with
  | dict d =>
    obtain ⟨hf, hl, hd⟩ := h
    refine ⟨hf, hl, fun k b hb => ?_⟩
    obtain ⟨hlt, hlevel, hfrozen⟩ := hd k b hb
    rw [hg b hlt]
    exact ⟨by omega, hlevel, hfrozen⟩
  | list l => exact h
  | samples c => exact h
  | repo r =>
    obtain ⟨hl, hd, hs, hc⟩ := h
    refine ⟨hl, hd, hs, fun k b hb => ?_⟩
    obtain ⟨hlt, hrest⟩ := hc k b hb
    rw [hg b hlt]
    exact ⟨by omega, hrest⟩

namespace Heap

def Inv (h : Heap κ α) (g : ℕ → Mark κ) : Prop :=
  ∀ (a : ℕ) (o : Container κ α), h[a]? = some o → o.Placed g a (g a) h.length

theorem Inv.alloc {h : Heap κ α} {g : ℕ → Mark κ} (hi : h.Inv g) {o : Container κ α} {m : Mark κ}
    (ho : o.Placed g h.length m h.length) :
    Inv (h ++ [o]) (Function.update g h.length m) := by
  have hg : ∀ b, b < h.length → Function.update g h.length m b = g b := fun b hb => Function.update_of_ne (by omega) _ _
  intro a x hx
  have hsize : h.length ≤ (h ++ [o]).length := by simp
  by_cases ha : a < h.length
  · rw [List.getElem?_append_left ha] at hx
    rw [hg a ha]
    exact (hi a x hx).mono hg hsize
  · have ha' : a = h.length := by
      have := (List.getElem?_eq_some_iff.1 hx).1
      simp only [List.length_append, List.length_singleton] at this
      omega
    subst ha'
    rw [List.getElem?_append_right le_rfl, Nat.sub_self, List.getElem?_cons_zero] at hx
    cases hx
    rw [Function.update_self]
    exact ho.mono hg hsize

theorem Inv.set {h : Heap κ α} {g : ℕ → Mark κ} (hi : h.Inv g) {a : ℕ} {o : Container κ α}
    (ho : o.Placed g a (g a) h.length) :
    Inv (h.set a o) g := by
  intro b x hx
  rw [List.length_set]
  by_cases hb : a = b
  · subst hb
    rw [List.getElem?_set_self'] at hx
    obtain ⟨_, -, rfl⟩ := Option.map_eq_some_iff.1 hx
    exact ho
  · rw [List.getElem?_set_ne hb] at hx
    exact hi b x hx

def Within (g : ℕ → Mark κ) (r : ℕ) (p : List κ) (a : ℕ) : Prop := (g a).frozen ∨ (g a).owner = r ∧ p <+: (g a).path

def Kept (h h' : Heap κ α) (g : ℕ → Mark κ) (r : ℕ) (p : List κ) : Prop :=
  ∀ a, a < h.length → ((g a).frozen ∨ (g a).owner ≠ r ∨ ¬ p <+: (g a).path) → h'[a]? = h[a]?

theorem dataOf_within {h : Heap κ α} {g : ℕ → Mark κ} (hi : h.Inv g) {r : ℕ} {p : List κ} {a : ℕ} (ha : Within g r p a)
    {d : PyDict κ ℕ} (hd : h.dataOf a = some d) {k : κ} {b : ℕ} (hb : d.get? k = some b) :
    b < h.length ∧ Within g r p b := by
  unfold dataOf at hd
  split at hd
  · rename_i x hx
    cases hd
    obtain ⟨-, -, -, hc⟩ := hi a _ hx
    obtain ⟨hlt, -, hfrozen, hown⟩ := hc k b hb
    refine ⟨hlt, ?_⟩
    by_cases hf : (g a).frozen ∨ k ∉ x.owned.keys
    · exact .inl (hfrozen hf)
    · rw [not_or, not_not] at hf
      obtain ⟨-, howner, hpath, -⟩ := hown hf.1 hf.2
      obtain ⟨hr, hp⟩ := ha.resolve_left hf.1
      exact .inr ⟨howner.trans hr, hpath ▸ hp.trans (List.prefix_append _ _)⟩
  · rename_i x hx
    cases hd
    obtain ⟨hlt, -, hfrozen⟩ := (hi a _ hx).2.2 k b hb
    exact ⟨hlt, .inl hfrozen⟩
  · cases hd

theorem dataOf_frozen {h : Heap κ α} {g : ℕ → Mark κ} (hi : h.Inv g) {a : ℕ} (ha : (g a).frozen) {d : PyDict κ ℕ}
    (hd : h.dataOf a = some d) {k : κ} {b : ℕ} (hb : d.get? k = some b) : b < h.length ∧ (g b).frozen := by
  unfold dataOf at hd
  split at hd
  · rename_i x hx
    cases hd
    obtain ⟨-, -, -, hc⟩ := hi a _ hx
    obtain ⟨hlt, -, hfrozen, -⟩ := hc k b hb
    exact ⟨hlt, hfrozen (.inl ha)⟩
  · rename_i x hx
    cases hd
    obtain ⟨hlt, -, hfrozen⟩ := (hi a _ hx).2.2 k b hb
    exact ⟨hlt, hfrozen⟩
  · cases hd

theorem tree_congr {h h' : Heap κ α} {S : ℕ → Prop}
    (hclosed : ∀ a d k b, S a → h.dataOf a = some d → PyDict.get? d k = some b → S b)
    (hsame : ∀ a, S a → h'[a]? = h[a]?) (n : ℕ) {a : ℕ} (ha : S a) : h'.tree n a = h.tree n a := by
  induction n generalizing a with
  | zero => rw [tree, tree, hsame a ha]
  | succ n ih =>
    have hdata : h'.dataOf a = h.dataOf a := by
      rw [dataOf, dataOf, hsame a ha]
    rw [tree, tree, hdata]
    apply PyDict.mapValues_congr
    intro k b hb
    cases hd : h.dataOf a with
    | none => simp [hd] at hb
    | some d =>
      rw [hd, Option.getD_some] at hb
      exact ih (hclosed a d k b ha hd hb)

theorem tree_frozen {h h' : Heap κ α} {g : ℕ → Mark κ} (hi : h.Inv g)
    (hsame : ∀ a, a < h.length → (g a).frozen → h'[a]? = h[a]?) (n : ℕ) {a : ℕ} (hlt : a < h.length)
    (ha : (g a).frozen) :
    h'.tree n a = h.tree n a :=
  tree_congr (S := fun a => a < h.length ∧ (g a).frozen) (fun _ _ _ _ ha hd hb => dataOf_frozen hi ha.2 hd hb)
    (fun a ha => hsame a ha.1 ha.2) n ⟨hlt, ha⟩

theorem tree_within {h h' : Heap κ α} {g : ℕ → Mark κ} (hi : h.Inv g) {r : ℕ} {p : List κ}
    (hsame : ∀ a, a < h.length → Within g r p a → h'[a]? = h[a]?) (n : ℕ) {a : ℕ} (hlt : a < h.length)
    (ha : Within g r p a) :
    h'.tree n a = h.tree n a :=
  tree_congr (S := fun a => a < h.length ∧ Within g r p a) (fun _ _ _ _ ha hd hb => dataOf_within hi ha.2 hd hb)
    (fun a ha => hsame a ha.1 ha.2) n ⟨hlt, ha⟩

theorem Kept.tree {h h' : Heap κ α} {g : ℕ → Mark κ} {r r' : ℕ} {p p' : List κ} (hk : Kept h h' g r p) (hi : h.Inv g)
    (hapart : r' = r → ∀ l, p' <+: l → ¬ p <+: l) (n : ℕ) {a : ℕ} (hlt : a < h.length) (ha : Within g r' p' a) :
    h'.tree n a = h.tree n a := by
  apply tree_within hi _ n hlt ha
  intro b hb hwithin
  apply hk b hb
  rcases hwithin with hf | ⟨hr, hp⟩
  · exact .inl hf
  · by_cases hrr : r' = r
    · exact .inr (.inr (hapart hrr _ hp))
    · exact .inr (.inl (by rw [hr]; exact hrr))

theorem Inv.repo {h : Heap κ α} {g : ℕ → Mark κ} (hi : h.Inv g) {a n : ℕ} (hlt : a < h.length) (hf : ¬ (g a).frozen)
    (hl : (g a).level = n + 1) : ∃ r, h[a]? = some (.repo r) ∧ r.depth = n + 1 ∧ r.sealed = false := by
  obtain ⟨o, ho⟩ : ∃ o, h[a]? = some o := ⟨_, List.getElem?_eq_getElem hlt⟩
  have hplaced := hi a o ho
  cases o with
  | dict d => exact absurd hplaced.1 hf
  | list l => exact absurd hplaced.1 hf
  | samples c =>
    have hzero : (g a).level = 0 := hplaced
    omega
  | repo r =>
    obtain ⟨hlevel, -, hsealed, -⟩ := hplaced
    refine ⟨r, ho, by omega, ?_⟩
    rw [← Bool.not_eq_true]
    exact fun hs => hf (hsealed.1 hs)

theorem Inv.samples {h : Heap κ α} {g : ℕ → Mark κ} (hi : h.Inv g) {a : ℕ} (hlt : a < h.length) (hf : ¬ (g a).frozen)
    (hl : (g a).level = 0) : ∃ c, h[a]? = some (.samples c) := by
  obtain ⟨o, ho⟩ : ∃ o, h[a]? = some o := ⟨_, List.getElem?_eq_getElem hlt⟩
  have hplaced := hi a o ho
  cases o with
  | dict d => exact absurd hplaced.1 hf
  | list l => exact absurd hplaced.1 hf
  | samples c => exact ⟨c, ho⟩
  | repo r =>
    obtain ⟨hlevel, hpos, -⟩ := hplaced
    omega

theorem Inv.dataOf {h : Heap κ α} {g : ℕ → Mark κ} (hi : h.Inv g) {a n : ℕ} (hlt : a < h.length)
    (hl : (g a).level = n + 1) :
    ∃ d, h.dataOf a = some d ∧ ∀ k b, d.get? k = some b → b < h.length ∧ (g b).level = n ∧
    ((g a).frozen → (g b).frozen) := by
  obtain ⟨o, ho⟩ : ∃ o, h[a]? = some o := ⟨_, List.getElem?_eq_getElem hlt⟩
  have hplaced := hi a o ho
  cases o with
  | dict d =>
    refine ⟨d, by simp [Heap.dataOf, ho], fun k b hb => ?_⟩
    obtain ⟨hb₁, hb₂, hb₃⟩ := hplaced.2.2 k b hb
    exact ⟨hb₁, by omega, fun _ => hb₃⟩
  | list l =>
    have hzero := hplaced.2
    omega
  | samples c =>
    have hzero : (g a).level = 0 := hplaced
    omega
  | repo r =>
    refine ⟨r.data, by simp [Heap.dataOf, ho], fun k b hb => ?_⟩
    obtain ⟨hb₁, hb₂, hb₃, -⟩ := hplaced.2.2.2 k b hb
    exact ⟨hb₁, by omega, fun hf => hb₃ (.inl hf)⟩

theorem Inv.samplesOf {h : Heap κ α} {g : ℕ → Mark κ} (hi : h.Inv g) {a : ℕ} (hlt : a < h.length)
    (hl : (g a).level = 0) :
    ∃ c, h.samplesOf a = some c ∧ c.toList = h.tree 0 a := by
  obtain ⟨o, ho⟩ : ∃ o, h[a]? = some o := ⟨_, List.getElem?_eq_getElem hlt⟩
  have hplaced := hi a o ho
  cases o with
  | dict d =>
    have hpos := hplaced.2.1
    omega
  | list l =>
    refine ⟨.ofValues l, by simp [Heap.samplesOf, ho], ?_⟩
    rw [ChunkedSamples.ofValues, ChunkedSamples.toList_extend, tree, ho]
    simp [ChunkedSamples.empty, ChunkedSamples.toList]
  | samples c => exact ⟨c, by simp [Heap.samplesOf, ho], by rw [tree, ho]⟩
  | repo r =>
    obtain ⟨hlevel, hpos, -⟩ := hplaced
    omega

theorem branch_spec {h : Heap κ α} {g : ℕ → Mark κ} (hi : h.Inv g) {v n : ℕ} (hlt : v < h.length) (hl : (g v).level = n)
    (hf : (g v).frozen) (m : Mark κ) (hm : ¬ m.frozen) (hml : m.level = n) :
    ∃ b, h.branch v (n + 1) = some b ∧ b.Placed g h.length m h.length ∧
      ∀ h' : Heap κ α, (∀ a, a < h.length → (g a).frozen → h'[a]? = h[a]?) → ∀ c, h'[c]? = some b →
      h'.tree n c = h.tree n v := by
  cases n with
  | zero =>
    obtain ⟨c, hc, htree⟩ := hi.samplesOf hlt hl
    refine ⟨.samples c, by simp [branch, hc], hml, ?_⟩
    intro h' _ a ha
    rw [← htree, tree, ha]
  | succ n =>
    obtain ⟨d, hd, hchild⟩ := hi.dataOf hlt hl
    refine ⟨.repo (.onto d (n + 1)), by simp [branch, transaction, hd], ?_, ?_⟩
    · refine ⟨hml, Nat.succ_pos n, by simpa using hm, ?_⟩
      intro k b hb
      obtain ⟨hb₁, hb₂, hb₃⟩ := hchild k b hb
      refine ⟨hb₁, by omega, fun _ => hb₃ hf, ?_⟩
      intro _ hk
      cases hk
    · intro h' hsame a ha
      have hdata : h'.dataOf a = some d := by
        simp [Heap.dataOf, ha]
      rw [tree, tree, hdata, hd]
      apply PyDict.mapValues_congr
      intro k b hb
      obtain ⟨hb₁, -, hb₃⟩ := hchild k b hb
      exact tree_frozen hi hsame n hb₁ (hb₃ hf)

def Mark.below (g : ℕ → Mark κ) (s : ℕ) (key : κ) (n : ℕ) : Mark κ := ⟨False, (g s).owner, (g s).path ++ [key], s, n⟩

structure Descended (h : Heap κ α) (g : ℕ → Mark κ) (s : ℕ) (r : RepositoryTransaction κ) (k : κ) (n : ℕ)
    (h' : Heap κ α) (c : ℕ) (g' : ℕ → Mark κ) : Prop where
  inv : h'.Inv g'
  grows : h.length ≤ h'.length
  marks : ∀ a, a < h.length → g' a = g a
  kept : ∀ a, a < h.length → a ≠ s → h'[a]? = h[a]?
  self : h'[s]? = some (.repo (r.take k c))
  inside : c < h'.length
  child : ¬ (g' c).frozen ∧ (g' c).owner = (g s).owner ∧ (g' c).path = (g s).path ++ [k] ∧ (g' c).parent = s ∧
    (g' c).level = n

theorem adopt_spec {h : Heap κ α} {g : ℕ → Mark κ} (hi : h.Inv g) {s n : ℕ} {r : RepositoryTransaction κ}
    (hs : h[s]? = some (.repo r)) (hf : ¬ (g s).frozen) (hd : r.depth = n + 1) (k : κ) {v : ℕ} (hv : v < h.length)
    (hvl : (g v).level = n) (hvf : (g v).frozen) :
    ∃ h' c g', h.adopt s r k v = some (h', c) ∧ Descended h g s r k n h' c g' ∧ h'.tree n c = h.tree n v := by
  obtain ⟨b, hb, hplaced, htree⟩ := branch_spec hi hv hvl hvf (Mark.below g s k n) not_false rfl
  have hlt : s < h.length := (List.getElem?_eq_some_iff.1 hs).1
  have hmark : ∀ a, a < h.length → Function.update g h.length (Mark.below g s k n) a = g a :=
    fun a ha => Function.update_of_ne (by omega) _ _
  have hkept : ∀ a, a < h.length → a ≠ s →
      ((h ++ [b]).set s (.repo (r.take k h.length)))[a]? = h[a]? := by
    intro a ha hne
    rw [List.getElem?_set_ne hne.symm, List.getElem?_append_left ha]
  obtain ⟨hlevel, hpos, hsealed, hchild⟩ := hi s _ hs
  have hadopt : h.adopt s r k v = some ((h ++ [b]).set s (.repo (r.take k h.length)),
      h.length) := by
    have hbranch : h.branch v r.depth = some b := by rw [hd, hb]
    rw [adopt, hbranch, Option.map_some]
  refine ⟨_, _, Function.update g h.length (Mark.below g s k n), hadopt, ?_, ?_⟩
  · refine ⟨?_, by simp, hmark, hkept, ?_, by simp, ?_⟩
    · apply (hi.alloc hplaced).set
      rw [hmark s hlt]
      refine ⟨hlevel, hpos, hsealed, ?_⟩
      intro x c hc
      rw [RepositoryTransaction.data_take, PyDict.get?_set] at hc
      by_cases hx : x = k
      · rw [if_pos hx] at hc
        cases hc
        rw [Function.update_self]
        refine ⟨by simp, by simp only [Mark.below]; omega, ?_, ?_⟩
        · rintro (hfr | hnot)
          · exact absurd hfr hf
          · exact absurd (PySet.mem_keys_add.2 (.inl hx)) hnot
        · intro _ _
          rw [hx]
          exact ⟨not_false, rfl, rfl, rfl⟩
      · rw [if_neg hx] at hc
        obtain ⟨h₁, h₂, h₃, h₄⟩ := hchild x c hc
        rw [hmark c h₁]
        refine ⟨by simp only [List.length_append, List.length_singleton]; omega, h₂, ?_, ?_⟩
        · rintro (hfr | hnot)
          · exact h₃ (.inl hfr)
          · exact h₃ (.inr fun hm => hnot (PySet.mem_keys_add.2 (.inr hm)))
        · intro hfr hm
          exact h₄ hfr ((PySet.mem_keys_add.1 hm).resolve_left hx)
    · rw [List.getElem?_set_self (by simp; omega)]
    · rw [Function.update_self]
      exact ⟨not_false, rfl, rfl, rfl, rfl⟩
  · apply htree
    · intro a ha hfa
      exact hkept a ha fun he => hf (he ▸ hfa)
    · have hne : s ≠ h.length := by omega
      rw [List.getElem?_set_ne hne]
      simp

theorem repo?_eq {h : Heap κ α} {a : ℕ} {r : RepositoryTransaction κ} (hr : h[a]? = some (.repo r)) :
    h.repo? a = some r := by
  rw [repo?, hr]

theorem getitem_spec {h : Heap κ α} {g : ℕ → Mark κ} (hi : h.Inv g) {s n : ℕ} {r : RepositoryTransaction κ}
    (hs : h[s]? = some (.repo r)) (hf : ¬ (g s).frozen) (hd : r.depth = n + 1) {k : κ} {v : ℕ}
    (hv : r.data.get? k = some v) :
    ∃ h' c g', h.getitem s k = some (h', c) ∧ Descended h g s r k n h' c g' ∧ h'.tree n c = h.tree n v := by
  obtain ⟨hlevel, -, hsealed, hchild⟩ := hi s _ hs
  obtain ⟨hlt, hvl, hfrozen, hown⟩ := hchild k v hv
  have hunsealed : r.sealed = false := by
    rw [← Bool.not_eq_true]
    exact fun h => hf (hsealed.1 h)
  by_cases hk : k ∈ r.owned.keys
  · obtain ⟨h₁, h₂, h₃, h₄⟩ := hown hf hk
    refine ⟨h, v, g, ?_, ⟨hi, le_rfl, fun _ _ => rfl, fun _ _ _ => rfl, ?_, hlt, h₁, h₂, h₃, h₄, by omega⟩, rfl⟩
    · simp [getitem, repo?_eq hs, hv, hk]
    · rw [RepositoryTransaction.take_self hv hk, hs]
  · obtain ⟨h', c, g', hadopt, hdesc, htree⟩ := adopt_spec hi hs hf hd k hlt (by omega) (hfrozen (.inr hk))
    refine ⟨h', c, g', ?_, hdesc, htree⟩
    simp [getitem, repo?_eq hs, hv, hk, hunsealed, hadopt]

theorem setdefault_spec {h : Heap κ α} {g : ℕ → Mark κ} (hi : h.Inv g) {s n : ℕ} {r : RepositoryTransaction κ}
    (hs : h[s]? = some (.repo r)) (hf : ¬ (g s).frozen) (hd : r.depth = n + 1) (k : κ) {v : ℕ} (hv : v < h.length)
    (hvl : (g v).level = n) (hvf : (g v).frozen) (hvt : h.tree n v = Tree.empty n) :
    ∃ h' c g', h.setdefault s k v = some (h', c) ∧ Descended h g s r k n h' c g' ∧
      h'.tree n c = ((r.data.get? k).map (h.tree n)).getD (Tree.empty n) := by
  obtain ⟨-, -, hsealed, -⟩ := hi s _ hs
  have hunsealed : r.sealed = false := by
    rw [← Bool.not_eq_true]
    exact fun h => hf (hsealed.1 h)
  cases hk : r.data.get? k with
  | some w =>
    have hmem : k ∈ r.data.keys := by
      rw [PyDict.mem_keys, hk]
      rfl
    obtain ⟨h', c, g', hget, hdesc, htree⟩ := getitem_spec hi hs hf hd hk
    refine ⟨h', c, g', ?_, hdesc, htree⟩
    simp [setdefault, repo?_eq hs, hmem, hget]
  | none =>
    have hmem : k ∉ r.data.keys := PyDict.get?_eq_none.1 hk
    obtain ⟨h', c, g', hadopt, hdesc, htree⟩ := adopt_spec hi hs hf hd k hv hvl hvf
    refine ⟨h', c, g', ?_, hdesc, htree.trans hvt⟩
    have hset : h.setitem s k v = some h' := by
      simp [setitem, repo?_eq hs, hunsealed, hadopt]
    -- The new branch is owned at once, so that the read that follows does not fork it again.
    have hget : h'.getitem s k = some (h', c) := by
      simp [getitem, repo?_eq hdesc.self]
    simp [setdefault, repo?_eq hs, hmem, hset, hget]

theorem tree_repo {h : Heap κ α} {a : ℕ} {r : RepositoryTransaction κ} (hr : h[a]? = some (.repo r)) (n : ℕ) :
    h.tree (n + 1) a = r.data.mapValues fun _ b => h.tree n b := by
  rw [tree, dataOf, hr, Option.getD_some]

theorem default_placed (g : ℕ → Mark κ) (a : ℕ) (ks : List κ) (size : ℕ) :
    (default ks : Container κ α).Placed g a ⟨True, 0, [], 0, ks.length⟩ size := by
  cases ks with
  | nil => exact ⟨trivial, rfl⟩
  | cons k ks =>
    refine ⟨trivial, by simp, fun k b hb => ?_⟩
    cases hb

theorem tree_default (h : Heap κ α) (ks : List κ) :
    tree (h ++ [default ks]) ks.length h.length = Tree.empty ks.length := by
  cases ks with
  | nil =>
    rw [List.length_nil, tree]
    simp only [default, List.isEmpty_nil, if_true, List.getElem?_append_right le_rfl, Nat.sub_self,
      List.getElem?_cons_zero]
    rfl
  | cons k ks =>
    have hdata : dataOf (h ++ [default (k :: ks)]) h.length = some ∅ := by
      simp [default, dataOf]
    rw [List.length_cons, tree, hdata]
    rfl

theorem Descended.under {h h₁ h₂ : Heap κ α} {g g₁ : ℕ → Mark κ} {s n c : ℕ} {r : RepositoryTransaction κ} {k : κ}
    (hdesc : Descended h g s r k n h₁ c g₁) (hi : h.Inv g) (hr : h[s]? = some (.repo r)) (hf : ¬ (g s).frozen)
    (hkept : Kept h₁ h₂ g₁ (g s).owner ((g s).path ++ [k])) :
    Kept h h₂ g (g s).owner (g s).path ∧ h₂.tree (n + 1) s = PyDict.set (h.tree (n + 1) s) k (h₂.tree n c) := by
  have hlt : s < h.length := (List.getElem?_eq_some_iff.1 hr).1
  have hsame : ∀ a, a < h.length → a ≠ s →
      ((g a).frozen ∨ (g a).owner ≠ (g s).owner ∨ ¬ (g s).path ++ [k] <+: (g a).path) →
      h₂[a]? = h[a]? := by
    intro a ha hne hapart
    rw [hkept a (lt_of_lt_of_le ha hdesc.grows), hdesc.kept a ha hne]
    rwa [hdesc.marks a ha]
  -- The repository itself lies above the branch.
  have hs₂ : h₂[s]? = some (.repo (r.take k c)) := by
    rw [← hdesc.self]
    apply hkept s (lt_of_lt_of_le hlt hdesc.grows)
    right; right
    rw [hdesc.marks s hlt]
    intro hp
    have := hp.length_le
    simp at this
  constructor
  · intro a ha hapart
    have hne : a ≠ s := by
      rintro rfl
      rcases hapart with ha | ha | ha
      · exact hf ha
      · exact ha rfl
      · exact ha (List.prefix_refl _)
    apply hsame a ha hne
    rcases hapart with hfa | ho | hp
    · exact .inl hfa
    · exact .inr (.inl ho)
    · exact .inr (.inr fun hp' => hp ((List.prefix_append _ _).trans hp'))
  · have hother : ∀ x b, x ≠ k → r.data.get? x = some b → h₂.tree n b = h.tree n b := by
      intro x b hx hb
      obtain ⟨hlb, -, hfrozen, hown⟩ := (hi s _ hr).2.2.2 x b hb
      have hwithin : Within g (g s).owner ((g s).path ++ [x]) b := by
        by_cases hxo : x ∈ r.owned.keys
        · obtain ⟨-, hbo, hbp, -⟩ := hown hf hxo
          exact .inr ⟨hbo, hbp ▸ List.prefix_refl _⟩
        · exact .inl (hfrozen (.inr hxo))
      apply tree_within hi _ _ hlb hwithin
      intro a ha hwa
      apply hsame a ha
      · rintro rfl
        rcases hwa with hfa | ⟨-, hp⟩
        · exact hf hfa
        · have := hp.length_le
          simp at this
      · rcases hwa with hfa | ⟨-, hp⟩
        · exact .inl hfa
        · right; right
          intro hp'
          have heq := (List.prefix_of_prefix_length_le hp hp' (by simp)).eq_of_length (by simp)
          simp at heq
          exact hx heq
    rw [tree_repo hs₂, tree_repo hr, RepositoryTransaction.data_take, PyDict.mapValues_set]
    apply PyDict.set_congr
    · rw [PyDict.keys_mapValues, PyDict.keys_mapValues]
    · intro x hx
      rw [PyDict.get?_mapValues, PyDict.get?_mapValues]
      apply Option.map_congr
      intro b hb
      exact hother x b hx hb

theorem ingest_spec (value : α) {ks : List κ} : ∀ {h : Heap κ α} {g : ℕ → Mark κ} {s : ℕ}, h.Inv g → s < h.length →
    ¬ (g s).frozen → (g s).level = ks.length →
    ∃ h' g', h.ingest s ks value = some h' ∧ h'.Inv g' ∧ h.length ≤ h'.length ∧ (∀ a, a < h.length → g' a = g a) ∧
      Kept h h' g (g s).owner (g s).path ∧ h'.tree ks.length s = Tree.grow ks.length ks value (h.tree ks.length s) := by
  induction ks with
  | nil =>
    intro h g s hi hlt hf hl
    obtain ⟨c, hc⟩ := hi.samples hlt hf hl
    refine ⟨h.set s (.samples (c.append value)), g, by simp [ingest, append, hc], hi.set hl, by simp, fun _ _ => rfl,
      ?_, ?_⟩
    · intro a _ ha
      apply List.getElem?_set_ne
      rintro rfl
      rcases ha with ha | ha | ha
      · exact hf ha
      · exact ha rfl
      · exact ha (List.prefix_refl _)
    · have hnew : (h.set s (.samples (c.append value)))[s]? = some (.samples (c.append value)) :=
        List.getElem?_set_self hlt
      rw [List.length_nil, tree, hnew, tree, hc]
      exact c.toList_append value
  | cons k ks ih =>
    intro h g s hi hlt hf hl
    obtain ⟨r, hr, hd, -⟩ := hi.repo hlt hf hl
    -- The default is a plain container that nothing else refers to.
    obtain ⟨g₀, hg₀, hnew, hi₀⟩ : ∃ g₀ : ℕ → Mark κ, (∀ a, a < h.length → g₀ a = g a) ∧
      g₀ h.length = ⟨True, 0, [], 0, ks.length⟩ ∧
        Inv (h ++ [default ks]) g₀ :=
      ⟨_, fun a ha => Function.update_of_ne (by omega) _ _, Function.update_self _ _ _,
        hi.alloc (default_placed g h.length ks h.length)⟩
    have hsame : ∀ a, a < h.length → (h ++ [default ks])[a]? = h[a]? := fun a ha => List.getElem?_append_left ha
    have hr₀ : (h ++ [default ks])[s]? = some (.repo r) := by rw [hsame s hlt, hr]
    have hs₀ := hg₀ s hlt
    have hf₀ : ¬ (g₀ s).frozen := by rwa [hs₀]
    obtain ⟨h₁, c, g₁, hset, hdesc, htree⟩ := setdefault_spec hi₀ hr₀ hf₀ hd k (by simp) (by rw [hnew])
      (by rw [hnew]; trivial) (tree_default h ks)
    obtain ⟨hfc, howner, hpath, -, hlevel⟩ := hdesc.child
    obtain ⟨h₂, g₂, hingest, hi₂, hgrows, hmarks, hkept, hgrown⟩ := ih hdesc.inv hdesc.inside hfc hlevel
    rw [howner, hpath] at hkept
    obtain ⟨hkept, hset₂⟩ := hdesc.under hi₀ hr₀ hf₀ hkept
    have hlen : h.length < h₁.length := lt_of_lt_of_le (by simp) hdesc.grows
    have hroot : tree (h ++ [default ks]) (ks.length + 1) s = h.tree (ks.length + 1) s :=
      tree_within hi (fun a ha _ => hsame a ha) _ hlt (.inr ⟨rfl, List.prefix_refl _⟩)
    refine ⟨h₂, g₂, ?_, hi₂, by omega, ?_, ?_, ?_⟩
    · rw [ingest, hset, Option.bind_some, hingest]
    · intro a ha
      rw [hmarks a (by omega), hdesc.marks a (by simp; omega), hg₀ a ha]
    · intro a ha hapart
      rw [hkept a (by simp; omega) (by rwa [hg₀ a ha, hs₀]), hsame a ha]
    · have hget : PyDict.get? (h.tree (ks.length + 1) s) k = (r.data.get? k).map
          (tree (h ++ [default ks]) ks.length) := by
        rw [← hroot, tree_repo hr₀, PyDict.get?_mapValues]
      rw [List.length_cons, hset₂, hroot, hgrown, htree, ← hget]
      rfl

theorem walk_frozen {ks : List κ} : ∀ {h : Heap κ α} {g : ℕ → Mark κ} {s : ℕ}, h.Inv g → (g s).frozen →
    ∀ {h' c}, h.walk s ks = some (h', c) → h' = h := by
  induction ks with
  | nil =>
    intro h g s _ _ h' c hw
    cases hw
    rfl
  | cons k ks ih =>
    intro h g s hi hf h' c hw
    obtain ⟨⟨h₁, b⟩, hget, hw⟩ := Option.bind_eq_some_iff.1 hw
    obtain ⟨r, hr, hget⟩ := Option.bind_eq_some_iff.1 hget
    obtain ⟨v, hv, hget⟩ := Option.bind_eq_some_iff.1 hget
    have hs : h[s]? = some (.repo r) := by
      unfold repo? at hr
      split at hr
      · cases hr
        assumption
      · cases hr
    obtain ⟨-, -, hsealed, hchild⟩ := hi s _ hs
    obtain ⟨-, -, hfrozen, -⟩ := hchild k v hv
    rw [if_neg (by simp [hsealed.2 hf])] at hget
    cases hget
    exact ih hi (hfrozen (.inl hf)) hw

theorem walk_spec {ks : List κ} : ∀ {h : Heap κ α} {g : ℕ → Mark κ} {s n : ℕ}, h.Inv g → s < h.length → ¬ (g s).frozen →
    (g s).level = n → ∀ {h' c}, h.walk s ks = some (h', c) →
    ∃ g', h'.Inv g' ∧ h.length ≤ h'.length ∧ (∀ a, a < h.length → g' a = g a) ∧
      Kept h h' g (g s).owner (g s).path ∧ h'.tree n s = h.tree n s := by
  induction ks with
  | nil =>
    intro h g s n hi _ _ _ h' c hw
    cases hw
    exact ⟨g, hi, le_rfl, fun _ _ => rfl, fun _ _ _ => rfl, rfl⟩
  | cons k ks ih =>
    intro h g s n hi hlt hf hl h' c hw
    obtain ⟨⟨h₁, b⟩, hget, hw⟩ := Option.bind_eq_some_iff.1 hw
    cases n with
    | zero =>
      obtain ⟨c, hc⟩ := hi.samples hlt hf hl
      simp [getitem, repo?, hc] at hget
    | succ n =>
      obtain ⟨r, hr, hd, -⟩ := hi.repo hlt hf hl
      obtain ⟨r', hr', hget'⟩ := Option.bind_eq_some_iff.1 hget
      rw [repo?_eq hr] at hr'
      cases hr'
      obtain ⟨v, hv, -⟩ := Option.bind_eq_some_iff.1 hget'
      obtain ⟨h₁', b', g₁, hget₁, hdesc, htree⟩ := getitem_spec hi hr hf hd hv
      rw [hget] at hget₁
      cases hget₁
      obtain ⟨hfc, howner, hpath, -, hlevel⟩ := hdesc.child
      obtain ⟨g₂, hi₂, hgrows, hmarks, hkept, hsame⟩ := ih hdesc.inv hdesc.inside hfc hlevel hw
      rw [howner, hpath] at hkept
      obtain ⟨hkept, hset⟩ := hdesc.under hi hr hf hkept
      refine ⟨g₂, hi₂, le_trans hdesc.grows hgrows, ?_, hkept, ?_⟩
      · intro a ha
        rw [hmarks a (lt_of_lt_of_le ha hdesc.grows), hdesc.marks a ha]
      · rw [hset, hsame, htree]
        apply PyDict.set_of_get?
        rw [tree_repo hr, PyDict.get?_mapValues, hv]
        rfl

end Heap

end ClawBox.Knowledge
