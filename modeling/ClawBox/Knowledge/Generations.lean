import ClawBox.Knowledge.Sealing

namespace ClawBox.Knowledge

open Transition

variable {κ α : Type} [DecidableEq κ]

structure Generations (κ α : Type) [DecidableEq κ] where
  heap : Heap κ α
  roots : List ℕ

inductive GenerationOp (κ α : Type)
  | create
  | fork (i : ℕ)
  | ingest (i : ℕ) (ks : List κ) (value : α)
  | read (i : ℕ) (ks : List κ)
  | publish (i : ℕ)

namespace Generations

def empty : Generations κ α := ⟨[], []⟩

def forkDelta (s : Generations κ α) (source depth : ℕ) : Option (Generations κ α) :=
  (s.heap.transaction source depth).map fun o => ⟨s.heap ++ [o], s.roots ++ [s.heap.length]⟩

def next (depth : ℕ) (s : Generations κ α) : GenerationOp κ α → Option (Generations κ α)
  | .create => forkDelta { s with heap := s.heap ++ [.dict ∅] } s.heap.length depth
  | .fork i => s.roots[i]?.bind fun a => s.forkDelta a depth
  | .ingest i ks value => s.roots[i]?.bind fun a => (s.heap.ingest a ks value).map fun h => { s with heap := h }
  | .read i ks => s.roots[i]?.bind fun a => (s.heap.walk a ks).map fun r => { s with heap := r.1 }
  | .publish i => s.roots[i]?.map fun a => { s with heap := s.heap.sealRepo depth a }

def system (depth : ℕ) : System (Generations κ α) (GenerationOp κ α) :=
  ⟨(· = empty), fun s a t => s.next depth a = some t⟩

def isSealed (s : Generations κ α) (i : ℕ) : Bool := ((s.roots[i]?.bind s.heap.repo?).map (·.sealed)).getD false

/-- A successor starts from a published generation, and is written until it is published. -/
def allowed (depth : ℕ) (s : Generations κ α) : GenerationOp κ α → Prop
  | .fork i => s.isSealed i = true
  | .ingest i ks _ => s.isSealed i = false ∧ ks.length = depth
  | .publish i => s.isSealed i = false
  | _ => True

instance (depth : ℕ) (s : Generations κ α) (op : GenerationOp κ α) : Decidable (s.allowed depth op) :=
  match op with
  | .create => isTrue trivial
  | .fork i => inferInstanceAs (Decidable (s.isSealed i = true))
  | .ingest i ks _ => inferInstanceAs (Decidable (s.isSealed i = false ∧ ks.length = depth))
  | .read _ _ => isTrue trivial
  | .publish i => inferInstanceAs (Decidable (s.isSealed i = false))

end Generations

structure Line (κ α : Type) where
  history : List (List κ × α)
  published : Bool

namespace Line

def next (ls : List (Line κ α)) : GenerationOp κ α → Option (List (Line κ α))
  | .create => some (ls ++ [⟨[], false⟩])
  | .fork i => ls[i]?.map fun l => ls ++ [⟨l.history, false⟩]
  | .ingest i ks value => ls[i]?.map fun l => ls.set i { l with history := l.history ++ [(ks, value)] }
  | .read i _ => ls[i]?.map fun _ => ls
  | .publish i => ls[i]?.map fun l => ls.set i { l with published := true }

def system : System (List (Line κ α)) (GenerationOp κ α) := ⟨(· = []), fun s a t => next s a = some t⟩

end Line

namespace Generations

open Heap

structure Holds (depth : ℕ) (h : Heap κ α) (g : ℕ → Mark κ) (a : ℕ) (l : Line κ α) : Prop where
  inside : a < h.length
  level : (g a).level = depth
  root : (g a).path = []
  frozen : l.published = true ↔ (g a).frozen
  owner : ¬ (g a).frozen → (g a).owner = a
  repo : ∃ r, h.repo? a = some r
  tree : h.tree depth a = Tree.grown depth (Tree.empty depth) l.history

structure Follows (depth : ℕ) (s : Generations κ α) (ls : List (Line κ α)) (g : ℕ → Mark κ) : Prop where
  inv : s.heap.Inv g
  distinct : s.roots.Nodup
  length : ls.length = s.roots.length
  holds : ∀ (i a : ℕ) (l : Line κ α), s.roots[i]? = some a → ls[i]? = some l → Holds depth s.heap g a l

theorem Holds.kept {depth : ℕ} {h h' : Heap κ α} {g g' : ℕ → Mark κ} {a b : ℕ} {l : Line κ α} (hh : Holds depth h g b l)
    (hi : h.Inv g) (hgrows : h.length ≤ h'.length) (hmarks : ∀ x, x < h.length → g' x = g x) (hkept : Kept h h' g a [])
    (hne : b ≠ a) : Holds depth h' g' b l := by
  have hgb := hmarks b hh.inside
  have hapart : (g b).frozen ∨ (g b).owner ≠ a ∨ ¬ [] <+: (g b).path := by
    by_cases hf : (g b).frozen
    · exact .inl hf
    · exact .inr (.inl (by rwa [hh.owner hf]))
  have hwithin : Within g b [] b := by
    by_cases hf : (g b).frozen
    · exact .inl hf
    · exact .inr ⟨hh.owner hf, List.nil_prefix⟩
  refine ⟨lt_of_lt_of_le hh.inside hgrows, ?_, ?_, ?_, ?_, ?_, ?_⟩
  · rw [hgb, hh.level]
  · rw [hgb, hh.root]
  · rw [hgb, hh.frozen]
  · rw [hgb]
    exact hh.owner
  · obtain ⟨r, hr⟩ := hh.repo
    rw [repo?_eq_some] at hr
    exact ⟨r, repo?_eq (by rw [hkept b hh.inside hapart, hr])⟩
  · rw [hkept.tree hi (fun he => absurd he hne) depth hh.inside hwithin, hh.tree]

theorem kept_append (h : Heap κ α) (o : Container κ α) (g : ℕ → Mark κ) (r : ℕ) (p : List κ) :
    Kept h (h ++ [o]) g r p :=
  fun _ ha _ => List.getElem?_append_left ha

theorem Follows.write {depth : ℕ} {s : Generations κ α} {ls : List (Line κ α)} {g g' : ℕ → Mark κ}
    (hf : Follows depth s ls g) {i a : ℕ} {l l' : Line κ α} (ha : s.roots[i]? = some a) (hl : ls[i]? = some l)
    (hpriv : ¬ (g a).frozen) {h' : Heap κ α} (hi : h'.Inv g') (hgrows : s.heap.length ≤ h'.length)
    (hmarks : ∀ x, x < s.heap.length → g' x = g x) (hkept : Kept s.heap h' g (g a).owner (g a).path)
    (hpub : l'.published = l.published) (htree : h'.tree depth a = Tree.grown depth (Tree.empty depth) l'.history)
    (hpos : 0 < depth) :
    Follows depth { s with heap := h' } (ls.set i l') g' := by
  have hold := hf.holds i a l ha hl
  rw [hold.owner hpriv, hold.root] at hkept
  refine ⟨hi, hf.distinct, by rw [List.length_set, hf.length], ?_⟩
  intro j b m hb hm
  by_cases hij : i = j
  · subst hij
    have hab : a = b := Option.some.inj (ha.symm.trans hb)
    subst hab
    obtain ⟨hlt, -⟩ := List.getElem?_eq_some_iff.1 hl
    rw [List.getElem?_set_self hlt] at hm
    cases hm
    have hga := hmarks a hold.inside
    have hlevel : (g' a).level = depth := by rw [hga, hold.level]
    have hnf : ¬ (g' a).frozen := by rwa [hga]
    have hin := lt_of_lt_of_le hold.inside hgrows
    obtain ⟨r, hr, -⟩ := hi.repo hin hnf (hlevel.trans (Nat.succ_pred_eq_of_pos hpos).symm)
    refine ⟨hin, hlevel, by rw [hga, hold.root], by rw [hga, hpub, hold.frozen], ?_, ⟨r, repo?_eq hr⟩, htree⟩
    rw [hga]
    exact hold.owner
  · rw [List.getElem?_set_ne hij] at hm
    have hne : b ≠ a := by
      rintro rfl
      obtain ⟨hlti, hai⟩ := List.getElem?_eq_some_iff.1 ha
      obtain ⟨hltj, haj⟩ := List.getElem?_eq_some_iff.1 hb
      exact hij ((hf.distinct.getElem_inj_iff).1 (hai.trans haj.symm))
    exact (hf.holds j b m hb hm).kept hf.inv hgrows hmarks hkept hne

theorem Follows.fork {depth : ℕ} {s t : Generations κ α} {ls : List (Line κ α)} {g : ℕ → Mark κ}
    (hf : Follows depth s ls g) (hpos : 0 < depth) {v : ℕ} {rows : List (List κ × α)} (hv : v < s.heap.length)
    (hlevel : (g v).level = depth) (hfrozen : (g v).frozen)
    (htree : s.heap.tree depth v = Tree.grown depth (Tree.empty depth) rows) (hn : s.forkDelta v depth = some t) :
    ∃ g', Follows depth t (ls ++ [⟨rows, false⟩]) g' := by
  obtain ⟨o, ho, rfl⟩ := Option.map_eq_some_iff.1 hn
  obtain ⟨b, hb, hplaced, hsame⟩ := branch_spec hf.inv hv hlevel hfrozen ⟨False, s.heap.length, [], 0, depth⟩ not_false
    rfl
  have hbo : b = o := by
    rw [branch, if_pos (by omega), Nat.add_sub_cancel, ho] at hb
    exact (Option.some.inj hb).symm
  subst hbo
  have hnew : (s.heap ++ [b])[s.heap.length]? = some b := by simp
  obtain ⟨g', hg', hg'new, hi'⟩ : ∃ g' : ℕ → Mark κ, (∀ a, a < s.heap.length → g' a = g a) ∧
      g' s.heap.length = ⟨False, s.heap.length, [], 0, depth⟩ ∧ Inv (s.heap ++ [b]) g' :=
    ⟨_, fun a ha => Function.update_of_ne (by omega) _ _, Function.update_self _ _ _, hf.inv.alloc hplaced⟩
  refine ⟨g', hi', ?_, by simp [hf.length], ?_⟩
  · rw [List.nodup_append]
    refine ⟨hf.distinct, List.nodup_singleton _, ?_⟩
    intro a ha x hx hax
    rw [List.mem_singleton.1 hx] at hax
    obtain ⟨i, hlt, hia⟩ := List.getElem_of_mem ha
    have hi := List.getElem?_eq_getElem hlt
    have hl := List.getElem?_eq_getElem (hf.length ▸ hlt : i < ls.length)
    have := (hf.holds i _ _ hi hl).inside
    omega
  · intro i a l ha hl
    by_cases hi : i < s.roots.length
    · rw [List.getElem?_append_left hi] at ha
      rw [List.getElem?_append_left (by rw [hf.length]; exact hi)] at hl
      have hh := hf.holds i a l ha hl
      exact hh.kept hf.inv (by simp) hg' (kept_append _ _ _ (a + 1) _) (by omega)
    · have hlt := (List.getElem?_eq_some_iff.1 ha).1
      simp only [List.length_append, List.length_singleton] at hlt
      have hi' : i = s.roots.length := by omega
      subst hi'
      rw [List.getElem?_append_right le_rfl, Nat.sub_self, List.getElem?_cons_zero] at ha
      rw [← hf.length, List.getElem?_append_right le_rfl, Nat.sub_self, List.getElem?_cons_zero] at hl
      cases ha
      cases hl
      have hrepo : ∃ r, b = .repo r := by
        obtain ⟨d, -, rfl⟩ := Option.map_eq_some_iff.1 ho
        exact ⟨_, rfl⟩
      obtain ⟨r, rfl⟩ := hrepo
      refine ⟨by simp, by rw [hg'new], by rw [hg'new], by simp [hg'new], fun _ => by rw [hg'new], ⟨r, repo?_eq hnew⟩,
        ?_⟩
      rw [← htree]
      exact hsame _ (fun a ha _ => List.getElem?_append_left ha) _ hnew

theorem Follows.line {depth : ℕ} {s : Generations κ α} {ls : List (Line κ α)} {g : ℕ → Mark κ}
    (hf : Follows depth s ls g) {i a : ℕ} (ha : s.roots[i]? = some a) : ∃ l, ls[i]? = some l ∧
    Holds depth s.heap g a l ∧ s.isSealed i = l.published := by
  obtain ⟨hlt, -⟩ := List.getElem?_eq_some_iff.1 ha
  have hl := List.getElem?_eq_getElem (hf.length ▸ hlt : i < ls.length)
  have hh := hf.holds i a _ ha hl
  refine ⟨_, hl, hh, ?_⟩
  obtain ⟨r, hr⟩ := hh.repo
  obtain ⟨-, -, hsealed, -⟩ := hf.inv a _ (repo?_eq_some.1 hr)
  have hiff := hsealed.trans hh.frozen.symm
  rw [isSealed, ha, Option.bind_some, hr, Option.map_some, Option.getD_some]
  exact Bool.eq_iff_iff.2 hiff

theorem Follows.create {depth : ℕ} {s t : Generations κ α} {ls : List (Line κ α)} {g : ℕ → Mark κ}
    (hf : Follows depth s ls g) (hpos : 0 < depth)
    (hn : forkDelta { s with heap := s.heap ++ [.dict ∅] } s.heap.length depth = some t) :
    ∃ g', Follows depth t (ls ++ [⟨[], false⟩]) g' := by
  have hplaced : (Container.dict ∅ : Container κ α).Placed g s.heap.length ⟨True, 0, [], 0, depth⟩ s.heap.length :=
    ⟨trivial, hpos, fun k b hb => by cases hb⟩
  obtain ⟨g', hg', hnew, hi'⟩ : ∃ g' : ℕ → Mark κ, (∀ a, a < s.heap.length → g' a = g a) ∧
      g' s.heap.length = ⟨True, 0, [], 0, depth⟩ ∧ Inv (s.heap ++ [.dict ∅]) g' :=
    ⟨_, fun a ha => Function.update_of_ne (by omega) _ _, Function.update_self _ _ _, hf.inv.alloc hplaced⟩
  have hf' : Follows depth { s with heap := s.heap ++ [.dict ∅] } ls g' := by
    refine ⟨hi', hf.distinct, hf.length, fun i a l ha hl => ?_⟩
    exact (hf.holds i a l ha hl).kept hf.inv (by simp) hg' (kept_append _ _ _ (a + 1) _) (by omega)
  have hdata : dataOf (s.heap ++ [.dict ∅]) s.heap.length = some ∅ := by
    simp [dataOf]
  have htree : Heap.tree (s.heap ++ [.dict ∅]) depth s.heap.length = Tree.grown depth (Tree.empty depth) [] := by
    obtain ⟨n, rfl⟩ := Nat.exists_eq_succ_of_ne_zero hpos.ne'
    rw [Heap.tree, hdata]
    rfl
  exact hf'.fork hpos (by simp) (by rw [hnew]) (by rw [hnew]; trivial) htree hn

theorem Follows.publish {depth : ℕ} {s : Generations κ α} {ls : List (Line κ α)} {g : ℕ → Mark κ}
    (hf : Follows depth s ls g) (hpos : 0 < depth) {i a : ℕ} {l : Line κ α} (ha : s.roots[i]? = some a)
    (hl : ls[i]? = some l) (hpriv : ¬ (g a).frozen) :
    ∃ g', Follows depth { s with heap := s.heap.sealRepo depth a } (ls.set i { l with published := true }) g' := by
  obtain ⟨n, rfl⟩ := Nat.exists_eq_succ_of_ne_zero hpos.ne'
  have hold := hf.holds i a l ha hl
  have hp := publishes_sealRepo n s.heap a (hf.inv.owned _ hold.inside hpriv hold.level)
  have hinv := hf.inv.publishes hpriv hold.level hold.root hp
  have hrepo : ∀ {b m}, Holds (n + 1) s.heap g b m → ∃ r, (s.heap.sealRepo (n + 1) a).repo? b = some r := by
    intro b m hm
    obtain ⟨r, hr⟩ := hm.repo
    obtain ⟨r', hr', -⟩ := hp.same.repo hr
    exact ⟨r', hr'⟩
  refine ⟨_, hinv, hf.distinct, by rw [List.length_set, hf.length], ?_⟩
  intro j b m hb hm
  by_cases hij : i = j
  · subst hij
    have hab : a = b := Option.some.inj (ha.symm.trans hb)
    subst hab
    rw [List.getElem?_set_self (List.getElem?_eq_some_iff.1 hl).1] at hm
    cases hm
    refine ⟨by rw [hp.same.length]; exact hold.inside, hold.level, hold.root, ?_, ?_, hrepo hold, ?_⟩
    · exact ⟨fun _ => .inr (Under.refl _ _ _), fun _ => rfl⟩
    · exact fun hnf => absurd (.inr (Under.refl _ _ _)) hnf
    · rw [hp.same.tree, hold.tree]
  · rw [List.getElem?_set_ne hij] at hm
    have hother := hf.holds j b m hb hm
    have hapart : ¬ s.heap.Under (n + 1) a b := by
      intro hu
      obtain ⟨hfb, howner, -⟩ := hf.inv.under (n + 1) hpriv hold.level hu
      rw [hother.owner hfb, hold.owner hpriv] at howner
      subst howner
      obtain ⟨hlti, hai⟩ := List.getElem?_eq_some_iff.1 ha
      obtain ⟨hltj, haj⟩ := List.getElem?_eq_some_iff.1 hb
      exact hij ((hf.distinct.getElem_inj_iff).1 (hai.trans haj.symm))
    have hfrozen : (sealMarks s.heap g (n + 1) a b).frozen ↔ (g b).frozen := ⟨fun h => h.resolve_right hapart, .inl⟩
    refine ⟨by rw [hp.same.length]; exact hother.inside, hother.level, hother.root, hother.frozen.trans hfrozen.symm,
      ?_, hrepo hother, ?_⟩
    · exact fun hnf => hother.owner fun h => hnf (hfrozen.2 h)
    · rw [hp.same.tree, hother.tree]

theorem Follows.step {depth : ℕ} {s t : Generations κ α} {ls : List (Line κ α)} {g : ℕ → Mark κ}
    (hf : Follows depth s ls g) (hpos : 0 < depth) {op : GenerationOp κ α} (hn : s.next depth op = some t)
    (hok : s.allowed depth op) :
    ∃ ls' g', Line.next ls op = some ls' ∧ Follows depth t ls' g' := by
  cases op with
  | create =>
    obtain ⟨g', hf'⟩ := hf.create hpos hn
    exact ⟨_, g', rfl, hf'⟩
  | fork i =>
    obtain ⟨a, ha, hn⟩ := Option.bind_eq_some_iff.1 hn
    obtain ⟨l, hl, hh, hsealed⟩ := hf.line ha
    have hfrozen : (g a).frozen := by
      rw [← hh.frozen, ← hsealed]
      exact hok
    obtain ⟨g', hf'⟩ := hf.fork hpos hh.inside hh.level hfrozen hh.tree hn
    exact ⟨_, g', by rw [Line.next, hl, Option.map_some], hf'⟩
  | ingest i ks value =>
    obtain ⟨a, ha, hn⟩ := Option.bind_eq_some_iff.1 hn
    obtain ⟨h', hingest, rfl⟩ := Option.map_eq_some_iff.1 hn
    obtain ⟨l, hl, hh, hsealed⟩ := hf.line ha
    obtain ⟨hopen, rfl⟩ := hok
    have hpriv : ¬ (g a).frozen := by
      rwa [← hh.frozen, ← hsealed, Bool.not_eq_true]
    obtain ⟨h₁, g', h₁', hi, hgrows, hmarks, hkept, htree⟩ := ingest_spec value hf.inv hh.inside hpriv hh.level
    rw [hingest] at h₁'
    cases h₁'
    refine ⟨ls.set i { l with history := l.history ++ [(ks, value)] }, g', by rw [Line.next, hl, Option.map_some], ?_⟩
    refine hf.write ha hl hpriv hi hgrows hmarks hkept ?_ ?_ hpos
    · rfl
    · rw [htree, hh.tree, Tree.grown, Tree.grown, List.foldl_append]
      rfl
  | read i ks =>
    obtain ⟨a, ha, hn⟩ := Option.bind_eq_some_iff.1 hn
    obtain ⟨⟨h', c⟩, hwalk, rfl⟩ := Option.map_eq_some_iff.1 hn
    obtain ⟨l, hl, hh, -⟩ := hf.line ha
    refine ⟨ls, ?_⟩
    by_cases hfrozen : (g a).frozen
    · have hsame := walk_frozen hf.inv hfrozen hwalk
      subst hsame
      exact ⟨g, by rw [Line.next, hl, Option.map_some], hf⟩
    · obtain ⟨g', hi, hgrows, hmarks, hkept, htree⟩ := walk_spec hf.inv hh.inside hfrozen hh.level hwalk
      have hset : ls.set i l = ls := by
        obtain ⟨hlt, rfl⟩ := List.getElem?_eq_some_iff.1 hl
        exact List.set_getElem_self hlt
      have hw : Follows depth { s with heap := h' } (ls.set i l) g' :=
        hf.write ha hl hfrozen hi hgrows hmarks hkept rfl (by rw [htree, hh.tree]) hpos
      rw [hset] at hw
      exact ⟨g', by rw [Line.next, hl, Option.map_some], hw⟩
  | publish i =>
    obtain ⟨a, ha, rfl⟩ := Option.map_eq_some_iff.1 hn
    obtain ⟨l, hl, hh, hsealed⟩ := hf.line ha
    have hpriv : ¬ (g a).frozen := by
      rw [← hh.frozen, ← hsealed, Bool.not_eq_true]
      exact hok
    obtain ⟨g', hf'⟩ := hf.publish hpos ha hl hpriv
    exact ⟨_, g', by rw [Line.next, hl, Option.map_some], hf'⟩

theorem follows_empty (depth : ℕ) : Follows depth (empty : Generations κ α) [] (fun _ => ⟨True, 0, [], 0, 0⟩) :=
  { inv := fun a o ho => by cases ho
    distinct := List.nodup_nil
    length := rfl
    holds := fun i a l ha => by cases ha }

theorem follows_run {depth : ℕ} (hpos : 0 < depth) {ops : List (GenerationOp κ α)} {s : Generations κ α}
    (hr : Run ((system depth).restrict (allowed depth)) empty ops s) :
    ∃ ls g, Run Line.system [] ops ls ∧ Follows depth s ls g := by
  induction hr with
  | nil => exact ⟨[], _, .nil, follows_empty depth⟩
  | snoc _ hs ih =>
    obtain ⟨ls, g, hrun, hf⟩ := ih
    obtain ⟨ls', g', hn, hf'⟩ := hf.step hpos hs.1 hs.2
    exact ⟨ls', g', .snoc hrun hn, hf'⟩

end Generations

/-- Whatever the order in which generations are forked, written, read and published, each holds exactly the
observations of its own line, and shows them over any seed; a published one is not changed by reading it, and a writer
can always go on. -/
theorem generations_isolated {depth : ℕ} (hpos : 0 < depth) {ops : List (GenerationOp κ α)} {s : Generations κ α}
    (hr : Run ((Generations.system depth).restrict (Generations.allowed depth)) Generations.empty ops s) :
    ∃ ls, Run Line.system [] ops ls ∧ ∀ i a, s.roots[i]? = some a → ∃ l, ls[i]? = some l ∧ s.isSealed i = l.published ∧
      s.heap.tree depth a = Tree.grown depth (Tree.empty depth) l.history ∧
      (∀ seed, Tree.view depth seed (s.heap.tree depth a) = Tree.grown depth seed l.history) ∧
      (l.published → ∀ ks h c, s.heap.walk a ks = some (h, c) → h = s.heap) ∧
      (¬ l.published → ∀ ks value, ks.length = depth → (s.heap.ingest a ks value).isSome) := by
  obtain ⟨ls, g, hrun, hf⟩ := Generations.follows_run hpos hr
  refine ⟨ls, hrun, fun i a ha => ?_⟩
  obtain ⟨l, hl, hh, hsealed⟩ := hf.line ha
  refine ⟨l, hl, hsealed, hh.tree, ?_, ?_, ?_⟩
  · intro seed
    rw [hh.tree, Tree.view_grown, Tree.view_empty]
  · intro hp ks h c hw
    exact Heap.walk_frozen hf.inv (hh.frozen.1 hp) hw
  · rintro hp ks value rfl
    obtain ⟨h', -, hingest, -⟩ := Heap.ingest_spec value hf.inv hh.inside (fun hfr => hp (hh.frozen.2 hfr)) hh.level
    rw [hingest]
    rfl

theorem generations_isolated_siblings : ∃ (s : Generations ℕ ℕ) (ls : List (Line ℕ ℕ)),
    Run Line.system [] [.create, .ingest 0 [1, 2] 10, .publish 0, .fork 0, .fork 0, .ingest 1 [1, 3] 20, .ingest 2
      [1, 2] 30, .read 1 [1, 2], .publish 1] ls ∧ s.roots.length = 3 ∧
    ∀ i a : ℕ, s.roots[i]? = some a → ∃ l : Line ℕ ℕ, ls[i]? = some l ∧
    s.heap.tree 2 a = Tree.grown 2 (Tree.empty 2) l.history := by
  have hrun : Run ((Generations.system 2).restrict (Generations.allowed 2)) (Generations.empty :
      Generations ℕ ℕ) [.create, .ingest 0 [1, 2] 10, .publish 0, .fork 0, .fork 0, .ingest 1 [1, 3] 20,
      .ingest 2 [1, 2] 30, .read 1 [1, 2], .publish 1] _ :=
    run_of_foldlM rfl
  obtain ⟨ls, hls, hall⟩ := generations_isolated (by decide) hrun
  exact ⟨_, ls, hls, rfl, fun i a ha => (hall i a ha).imp fun l hl => ⟨hl.1, hl.2.2.1⟩⟩

end ClawBox.Knowledge
