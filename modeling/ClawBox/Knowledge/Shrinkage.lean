import ClawBox.Knowledge.NodeMap
import Mathlib.Data.List.Sort
import Mathlib.Data.Rat.Lemmas

namespace ClawBox.Knowledge

open Relation Termination Transition

namespace Store

variable {κ F ρ : Type*} [DecidableEq κ] {s t u : Store κ F ρ}

structure Extends (s t : Store κ F ρ) : Prop where
  next : s.next ≤ t.next
  heap : ∀ ref < s.next, t.heap ref = s.heap ref
  resolved : ∀ k ref, s.resolved.get? k = some ref → t.resolved.get? k = some ref

theorem Extends.refl (s : Store κ F ρ) : Extends s s := ⟨le_rfl, fun _ _ => rfl, fun _ _ => id⟩

theorem Extends.trans (h : Extends s t) (h' : Extends t u) : Extends s u :=
  ⟨h.next.trans h'.next, fun ref hr => (h'.heap ref (hr.trans_le h.next)).trans (h.heap ref hr),
    fun k ref hk => h'.resolved k ref (h.resolved k ref hk)⟩

structure Fresh (s t : Store κ F ρ) (node : NodeStats F ρ) : Prop where
  keeps : Extends s t
  lt : s.next < t.next
  node : t.heap s.next = node
  resolved : t.resolved = s.resolved

theorem fresh_copy (s : Store κ F ρ) (ref : ℕ) : Fresh s (s.copy ref) (s.heap ref) where
  keeps := ⟨Nat.le_succ _, fun _ hx => Function.update_of_ne hx.ne _ _, fun _ _ => id⟩
  lt := Nat.lt_succ_self _
  node := Function.update_self _ _ _
  resolved := rfl

theorem Fresh.write {node : NodeStats F ρ} (h : Fresh s t node) (f : NodeStats F ρ → NodeStats F ρ) :
    Fresh s (t.write s.next f) (f node) where
  keeps := by
    refine ⟨h.keeps.next, fun x hx => ?_, h.keeps.resolved⟩
    rw [← h.keeps.heap x hx]
    exact Function.update_of_ne hx.ne _ _
  lt := h.lt
  node := by
    rw [← h.node]
    exact Function.update_self _ _ _
  resolved := h.resolved

end Store

namespace NodeMap

variable {κ F ρ : Type*} [DecidableEq κ] {A : Arithmetic F} {m : NodeMap κ F} {s₀ s t : Store κ F ρ} {k : κ}

structure Valid (A : Arithmetic F) (m : NodeMap κ F) (s₀ s : Store κ F ρ) : Prop where
  raw : ∀ k ref, m.raw.get? k = some ref → ref < s₀.next
  kept : Store.Extends s₀ s
  memo : ∀ k ref, s.resolved.get? k = some ref → ref < s.next ∧ s.heap ref = m.eager A s₀.heap k

theorem Valid.start (h : m.Start s₀) : Valid A m s₀ s₀ := by
  refine ⟨h.2, .refl _, fun k ref hk => ?_⟩
  rw [h.1] at hk
  cases hk

theorem exists_raw (hk : k ∈ m.raw.keys) : ∃ ref, m.raw.get? k = some ref := by
  obtain ⟨⟨x, ref⟩, he, rfl⟩ := List.mem_map.mp hk
  exact ⟨ref, PyDict.get?_eq_some.mpr he⟩

theorem exists_parents (hk : k ∈ m.raw.keys) :
    m.parents.get? k = some (m.parentsOf k) ∧ ∀ p ∈ m.parentsOf k, p ∈ m.raw.keys := by
  obtain ⟨ps, hps, hraw⟩ := m.closed k hk
  have heq : m.parentsOf k = ps := by
    rw [parentsOf, hps]
    rfl
  rw [heq]
  exact ⟨hps, hraw⟩

theorem Valid.heap_raw (h : Valid A m s₀ s) {ref : ℕ} (hk : m.raw.get? k = some ref) :
    ref < s.next ∧ s.heap ref = m.nodeOf s₀.heap k := by
  have hlt := h.raw k ref hk
  refine ⟨hlt.trans_le h.kept.next, (h.kept.heap ref hlt).trans ?_⟩
  rw [nodeOf, hk]
  rfl

theorem Valid.extend (h : Valid A m s₀ s) (ht : Store.Extends s t)
    (hmemo : ∀ k ref, t.resolved.get? k = some ref → s.resolved.get? k = some ref ∨
      ref < t.next ∧ t.heap ref = m.eager A s₀.heap k) : Valid A m s₀ t := by
  refine ⟨h.raw, h.kept.trans ht, fun k ref hk => ?_⟩
  rcases hmemo k ref hk with hold | hnew
  · obtain ⟨hlt, he⟩ := h.memo k ref hold
    exact ⟨hlt.trans_le ht.next, (ht.heap ref hlt).trans he⟩
  · exact hnew

theorem Valid.memoise (h : Valid A m s₀ s) (ht : Store.Extends s t) (hres : t.resolved = s.resolved)
    (hnone : s.resolved.get? k = none) {ref : ℕ} (hlt : ref < t.next) (he : t.heap ref = m.eager A s₀.heap k) :
    Valid A m s₀ (t.memo k ref) ∧ Store.Extends s (t.memo k ref) ∧ ((t.memo k ref).resolved.get? k).isSome := by
  have hext : Store.Extends s (t.memo k ref) := by
    refine ⟨ht.next, ht.heap, fun x y hx => ?_⟩
    have hne : x ≠ k := by
      rintro rfl
      rw [hnone] at hx
      cases hx
    rw [Store.memo, PyDict.get?_set_ne _ _ hne, hres]
    exact hx
  refine ⟨h.extend hext fun x y hx => ?_, hext, ?_⟩
  · rw [Store.memo, PyDict.get?_set, hres] at hx
    split_ifs at hx with hk
    · cases hx
      exact .inr ⟨hlt, hk ▸ he⟩
    · exact .inl hx
  · rw [Store.memo, PyDict.get?_set_self]
    rfl

theorem shrunk_of_unchanged {node : NodeStats F ρ} {ps : List (NodeStats F ρ)}
    (h : (decide (node.count = 1) && A.ne node.stdLog m.std ||
      A.ne node.shrinkageVar (shrinkage A node ps (A.square m.std) m.kappa).1 ||
      node.coldStart != (shrinkage A node ps (A.square m.std) m.kappa).2) = false) : m.shrunk A node ps = node := by
  simp only [Bool.or_eq_false_iff, bne_eq_false_iff_eq] at h
  obtain ⟨⟨hprior, hvar⟩, hcold⟩ := h
  have hsame : m.withPrior A node = node := by
    refine if_neg fun hc => ?_
    simp [hc.1, hc.2] at hprior
  rw [shrunk, hsame, ← A.eq_of_ne _ _ hvar, ← hcold]

theorem Valid.resolve (h : Valid A m s₀ s) (hnone : s.resolved.get? k = none)
    (hps : ∀ p ∈ m.parentsOf k, (s.resolved.get? p).isSome) {ref : ℕ} (href : m.raw.get? k = some ref) :
    Valid A m s₀ (m.resolve A s k ref (m.parentsOf k)) ∧ Store.Extends s (m.resolve A s k ref (m.parentsOf k)) ∧
      ((m.resolve A s k ref (m.parentsOf k)).resolved.get? k).isSome := by
  obtain ⟨hlt, hnode⟩ := h.heap_raw href
  have hparents : ((m.parentsOf k).filterMap fun p => (s.resolved.get? p).map s.heap) =
      (m.parentsOf k).map (m.eager A s₀.heap) := by
    rw [← List.filterMap_eq_map]
    refine List.filterMap_congr fun p hp => ?_
    obtain ⟨x, hx⟩ := Option.isSome_iff_exists.mp (hps p hp)
    rw [hx, Option.map_some, (h.memo p x hx).2]
    rfl
  have heager := m.eager_eq A s₀.heap k
  unfold NodeMap.resolve
  rw [hparents, hnode]
  dsimp only
  split_ifs with hguard hprior
  · have hfresh := ((Store.fresh_copy s ref).write fun n => { n with
      shrinkageVar := (shrinkage A (m.nodeOf s₀.heap k) ((m.parentsOf k).map (m.eager A s₀.heap))
        (A.square m.std) m.kappa).1
      coldStart := (shrinkage A (m.nodeOf s₀.heap k) ((m.parentsOf k).map (m.eager A s₀.heap))
        (A.square m.std) m.kappa).2 }).write fun n => { n with stdLog := m.std, stderrLog := m.std }
    refine h.memoise hfresh.keeps hfresh.resolved hnone hfresh.lt (hfresh.node.trans ?_)
    rw [heager, shrunk, withPrior, if_pos (by simpa using hprior), hnode]
  · have hfresh := (Store.fresh_copy s ref).write fun n => { n with
      shrinkageVar := (shrinkage A (m.nodeOf s₀.heap k) ((m.parentsOf k).map (m.eager A s₀.heap))
        (A.square m.std) m.kappa).1
      coldStart := (shrinkage A (m.nodeOf s₀.heap k) ((m.parentsOf k).map (m.eager A s₀.heap))
        (A.square m.std) m.kappa).2 }
    refine h.memoise hfresh.keeps hfresh.resolved hnone hfresh.lt (hfresh.node.trans ?_)
    rw [heager, shrunk, withPrior, if_neg (by simpa using hprior), hnode]
  · refine h.memoise (.refl s) rfl hnone hlt (hnode.trans ?_)
    rw [heager, shrunk_of_unchanged (by simpa using hguard)]

def Resolves (A : Arithmetic F) (m : NodeMap κ F) (s₀ s t : Store κ F ρ) (ks : List κ) : Prop :=
  Valid A m s₀ t ∧ Store.Extends s t ∧ (∀ k ∈ ks, (t.resolved.get? k).isSome) ∧
    ∀ pending r, Returns (fun fuel => resolveLoop A m fuel pending t) r →
      Returns (fun fuel => resolveLoop A m fuel (ks ++ pending) s) r

theorem Valid.resolves_list {ks : List κ} (hks : ∀ k ∈ ks, ∀ s, Valid A m s₀ s → ∃ t, Resolves A m s₀ s t [k])
    (h : Valid A m s₀ s) : ∃ t, Resolves A m s₀ s t ks := by
  induction ks generalizing s with
  | nil => exact ⟨s, h, .refl s, by simp, fun _ _ hr => hr⟩
  | cons k ks ih =>
    obtain ⟨t, ht, hst, hk, hloop⟩ := hks k List.mem_cons_self s h
    obtain ⟨u, hu, htu, hrest, hloop'⟩ := ih (fun x hx => hks x (List.mem_cons_of_mem _ hx)) ht
    refine ⟨u, hu, hst.trans htu, fun x hx => ?_, fun pending r hr => hloop _ r (hloop' pending r hr)⟩
    rcases List.mem_cons.mp hx with rfl | hx
    · obtain ⟨ref, href⟩ := Option.isSome_iff_exists.mp (hk x List.mem_cons_self)
      exact Option.isSome_iff_exists.mpr ⟨ref, htu.resolved x ref href⟩
    · exact hrest x hx

theorem resolveLoop_memo (hk : (s.resolved.get? k).isSome) (pending : List κ) (fuel : ℕ) :
    resolveLoop A m (fuel + 1) (k :: pending) s = resolveLoop A m fuel pending s := by
  rw [resolveLoop, if_pos hk]

theorem resolveLoop_ready (hk : k ∈ m.raw.keys) (hnone : s.resolved.get? k = none)
    (hps : ∀ p ∈ m.parentsOf k, (s.resolved.get? p).isSome) {ref : ℕ} (href : m.raw.get? k = some ref)
    (pending : List κ) (fuel : ℕ) :
    resolveLoop A m (fuel + 1) (k :: pending) s =
      resolveLoop A m fuel pending (m.resolve A s k ref (m.parentsOf k)) := by
  have hmissing : (m.parentsOf k).filter (fun p => (s.resolved.get? p).isNone) = [] := by
    refine List.filter_eq_nil_iff.mpr fun p hp => ?_
    rw [Bool.not_eq_true, Option.isNone_eq_false_iff]
    exact hps p hp
  simp only [resolveLoop, hnone, (exists_parents hk).1, hmissing, List.isEmpty_nil, href, Option.isSome_none,
    Bool.false_eq_true, if_false, if_true]

theorem resolveLoop_missing (hk : k ∈ m.raw.keys) (hnone : s.resolved.get? k = none)
    (hps : ¬∀ p ∈ m.parentsOf k, (s.resolved.get? p).isSome) (pending : List κ) (fuel : ℕ) :
    resolveLoop A m (fuel + 1) (k :: pending) s =
      resolveLoop A m fuel
        (((m.parentsOf k).filter fun p => (s.resolved.get? p).isNone).reverse ++ k :: pending) s := by
  have hmissing : ((m.parentsOf k).filter fun p => (s.resolved.get? p).isNone).isEmpty = false := by
    refine Bool.eq_false_iff.mpr fun hempty => hps fun p hp => ?_
    have hfilter := List.filter_eq_nil_iff.mp (List.isEmpty_iff.mp hempty) p hp
    rwa [Bool.not_eq_true, Option.isNone_eq_false_iff] at hfilter
  simp only [resolveLoop, hnone, (exists_parents hk).1, hmissing, Option.isSome_none, Bool.false_eq_true, if_false]

theorem Valid.resolves (h : Valid A m s₀ s) (hk : k ∈ m.raw.keys) : ∃ t, Resolves A m s₀ s t [k] := by
  induction k using m.wf.induction generalizing s with
  | _ k ih =>
    obtain ⟨ref, href⟩ := exists_raw hk
    -- once the parents are there
    have hready : ∀ u, Valid A m s₀ u → (∀ p ∈ m.parentsOf k, (u.resolved.get? p).isSome) →
        ∃ t, Resolves A m s₀ u t [k] := by
      intro u hu hps
      cases hres : u.resolved.get? k with
      | some x =>
        have hsome : (u.resolved.get? k).isSome := by rw [hres]; rfl
        refine ⟨u, hu, .refl u, by simpa using hsome, fun pending r hr => ?_⟩
        exact .of_succ (resolveLoop_memo hsome pending) hr
      | none =>
        obtain ⟨hv, hext, hsome⟩ := hu.resolve hres hps href
        refine ⟨_, hv, hext, by simpa using hsome, fun pending r hr => ?_⟩
        exact .of_succ (resolveLoop_ready hk hres hps href pending) hr
    by_cases hps : ∀ p ∈ m.parentsOf k, (s.resolved.get? p).isSome
    · exact hready s h hps
    cases hres : s.resolved.get? k with
    | some x =>
      have hsome : (s.resolved.get? k).isSome := by rw [hres]; rfl
      refine ⟨s, h, .refl s, by simpa using hsome, fun pending r hr => ?_⟩
      exact .of_succ (resolveLoop_memo hsome pending) hr
    | none =>
      obtain ⟨u, hu, hsu, hmissing, hloop⟩ := h.resolves_list
        fun p (hp : p ∈ ((m.parentsOf k).filter fun p => (s.resolved.get? p).isNone).reverse) v hv => by
          have hp := (List.mem_filter.mp (List.mem_reverse.mp hp)).1
          exact ih p (m.mem_parentsOf.mp hp) hv ((exists_parents hk).2 p hp)
      obtain ⟨t, ht, hut, hsome, hloop'⟩ := hready u hu fun p hp => by
        cases hold : s.resolved.get? p with
        | some x => exact Option.isSome_iff_exists.mpr ⟨x, hsu.resolved p x hold⟩
        | none => exact hmissing p (List.mem_reverse.mpr (List.mem_filter.mpr ⟨hp, by simp [hold]⟩))
      refine ⟨t, ht, hsu.trans hut, hsome, fun pending r hr => ?_⟩
      exact .of_succ (resolveLoop_missing hk hres hps pending) (hloop _ r (hloop' pending r hr))

theorem Valid.getitem (h : Valid A m s₀ s) (hk : k ∈ m.raw.keys) :
    ∃ t ref, Returns (m.getitem A s k) (.ok (t, ref)) ∧ Valid A m s₀ t ∧ Store.Extends s t ∧ ref < t.next ∧
      t.heap ref = m.eager A s₀.heap k := by
  obtain ⟨t, ht, hst, hsome, hloop⟩ := h.resolves hk
  obtain ⟨ref, href⟩ := Option.isSome_iff_exists.mp (hsome k (List.mem_singleton_self k))
  obtain ⟨x, hx⟩ := exists_raw hk
  have hreturns := hloop [] (.ok t) (.const fun _ => rfl)
  refine ⟨t, ref, hreturns.map fun fuel hf => ?_, ht, hst, ht.memo k ref href⟩
  simp only [NodeMap.getitem, hx, Option.isNone_some, Bool.false_eq_true, if_false]
  rw [List.append_nil] at hf
  rw [hf]
  simp only [href]

theorem shrinkage_cold {node : NodeStats F ρ} {ps : List (NodeStats F ρ)} {globalVar kappa : F} :
    (shrinkage A node ps globalVar kappa).2 = true ↔ (∀ p ∈ ps, p.coldStart = true) ∧ node.count < 2 := by
  simp only [shrinkage]
  split_ifs with hempty hcount hone
  all_goals
    simp only [List.isEmpty_iff, List.map_eq_nil_iff, List.filter_eq_nil_iff, Bool.not_eq_true',
      Bool.not_eq_false] at hempty
  · simp only [false_iff, not_and]
    omega
  · simp only [true_iff]
    exact ⟨hempty, by omega⟩
  · simp only [false_iff, not_and]
    exact fun hall => absurd hall hempty
  · simp only [false_iff, not_and]
    exact fun hall => absurd hall hempty

theorem eager_cold (heap : ℕ → NodeStats F ρ) (k : κ) :
    (m.eager A heap k).coldStart = true ↔ ∀ a, ReflTransGen m.IsParent a k → (m.nodeOf heap a).count < 2 := by
  induction k using m.wf.induction with
  | _ k ih =>
    rw [eager_eq, shrunk, shrinkage_cold]
    simp only [List.forall_mem_map]
    constructor
    · rintro ⟨hps, hk⟩ a ha
      rcases ReflTransGen.cases_tail ha with rfl | ⟨p, hap, hpk⟩
      · exact hk
      · exact (ih p hpk).mp (hps p (m.mem_parentsOf.mpr hpk)) a hap
    · intro hall
      refine ⟨fun p hp => ?_, hall k .refl⟩
      have hpk := m.mem_parentsOf.mp hp
      exact (ih p hpk).mpr fun a ha => hall a (ha.tail hpk)

def Frontier (m : NodeMap κ F) (heap : ℕ → NodeStats F ρ) (pending seen : List κ) : Prop :=
  ∀ x ∈ seen, (m.nodeOf heap x).count < 2 ∧ ∀ p ∈ m.parentsOf x, p ∈ seen ∨ p ∈ pending

theorem Frontier.ancestor {heap : ℕ → NodeStats F ρ} {pending seen : List κ} (h : Frontier m heap pending seen)
    {a x : κ} (ha : ReflTransGen m.IsParent a x) (hx : x ∈ seen) :
    a ∈ seen ∨ ∃ y ∈ pending, ReflTransGen m.IsParent a y := by
  induction ha with
  | refl => exact .inl hx
  | @tail c b hac hcb ih =>
    rcases (h b hx).2 c (m.mem_parentsOf.mpr hcb) with hc | hc
    · exact ih hc
    · exact .inr ⟨c, hc, hac⟩

theorem coldLoop_spec (h : Valid A m s₀ s) {unseen : ℕ} {pending seen : List κ}
    (hu : (m.raw.keys.toFinset.filter fun k => k ∉ seen).card = unseen) (hpending : ∀ x ∈ pending, x ∈ m.raw.keys)
    (hf : Frontier m s₀.heap pending seen) :
    ∃ b, Returns (fun fuel => coldLoop m s fuel pending seen) (.ok b) ∧
      (b = true ↔ ∀ x ∈ pending, ∀ a, ReflTransGen m.IsParent a x → (m.nodeOf s₀.heap a).count < 2) := by
  induction unseen using Nat.strong_induction_on generalizing pending seen with
  | _ unseen ihu =>
    induction pending with
    | nil => exact ⟨true, .const fun _ => rfl, by simp⟩
    | cons fs pending ih =>
      by_cases hseen : fs ∈ seen
      · have hf' : Frontier m s₀.heap pending seen := by
          intro x hx
          refine ⟨(hf x hx).1, fun p hp => ?_⟩
          rcases (hf x hx).2 p hp with hs | hs
          · exact .inl hs
          · rcases List.mem_cons.mp hs with rfl | hs
            · exact .inl hseen
            · exact .inr hs
        obtain ⟨b, hr, hb⟩ := ih (fun x hx => hpending x (List.mem_cons_of_mem _ hx)) hf'
        refine ⟨b, .of_succ (fun fuel => by rw [coldLoop, if_pos hseen]) hr, ?_⟩
        rw [hb, List.forall_mem_cons]
        refine ⟨fun hall => ⟨fun a ha => ?_, hall⟩, fun hall => hall.2⟩
        rcases hf'.ancestor ha hseen with has | ⟨y, hy, hay⟩
        · exact (hf' a has).1
        · exact hall y hy a hay
      · have hk := hpending fs List.mem_cons_self
        obtain ⟨ref, href⟩ := exists_raw hk
        obtain ⟨-, hnode⟩ := h.heap_raw href
        by_cases hcount : (m.nodeOf s₀.heap fs).count ≥ 2
        · refine ⟨false, .const fun fuel => ?_, ?_⟩
          · simp only [coldLoop, if_neg hseen, href, hnode, if_pos hcount]
          · simp only [Bool.false_eq_true, false_iff]
            intro hall
            have hlt := hall fs List.mem_cons_self fs .refl
            omega
        · obtain ⟨hparents, hraw⟩ := exists_parents hk
          have hlt : (m.raw.keys.toFinset.filter fun k => k ∉ fs :: seen).card < unseen := by
            rw [← hu]
            refine Finset.card_lt_card ⟨fun x hx => ?_, fun hsub => ?_⟩
            · simp only [Finset.mem_filter, List.mem_cons, not_or] at hx ⊢
              exact ⟨hx.1, hx.2.2⟩
            · have hfs := hsub (Finset.mem_filter.mpr ⟨List.mem_toFinset.mpr hk, hseen⟩)
              exact (Finset.mem_filter.mp hfs).2 List.mem_cons_self
          have hpending' : ∀ x ∈ (m.parentsOf fs).reverse ++ pending, x ∈ m.raw.keys := by
            intro x hx
            rcases List.mem_append.mp hx with hx | hx
            · exact hraw x (List.mem_reverse.mp hx)
            · exact hpending x (List.mem_cons_of_mem _ hx)
          have hf' : Frontier m s₀.heap ((m.parentsOf fs).reverse ++ pending) (fs :: seen) := by
            intro x hx
            rcases List.mem_cons.mp hx with rfl | hx
            · exact ⟨by omega, fun p hp => .inr (List.mem_append_left _ (List.mem_reverse.mpr hp))⟩
            · refine ⟨(hf x hx).1, fun p hp => ?_⟩
              rcases (hf x hx).2 p hp with hs | hs
              · exact .inl (List.mem_cons_of_mem _ hs)
              · rcases List.mem_cons.mp hs with rfl | hs
                · exact .inl List.mem_cons_self
                · exact .inr (List.mem_append_right _ hs)
          obtain ⟨b, hr, hb⟩ := ihu _ hlt rfl hpending' hf'
          refine ⟨b, .of_succ (fun fuel => ?_) hr, ?_⟩
          · simp only [coldLoop, if_neg hseen, href, hnode, if_neg hcount, hparents]
          · rw [hb, List.forall_mem_cons, List.forall_mem_append]
            refine and_congr_left fun _ => ⟨fun hall a ha => ?_, fun hall p hp a ha => ?_⟩
            · rcases ReflTransGen.cases_tail ha with rfl | ⟨p, hap, hpk⟩
              · omega
              · exact hall p (List.mem_reverse.mpr (m.mem_parentsOf.mpr hpk)) a hap
            · exact hall a (ha.tail (m.mem_parentsOf.mp (List.mem_reverse.mp hp)))

theorem Valid.rawGet (h : Valid A m s₀ s) (hk : k ∈ m.raw.keys) :
    ∃ t ref, Returns (m.rawGet s k) (.ok (t, some ref)) ∧ Valid A m s₀ t ∧ Store.Extends s t ∧ ref < t.next ∧
      t.heap ref = { m.nodeOf s₀.heap k with coldStart := (m.eager A s₀.heap k).coldStart } := by
  obtain ⟨ref, href⟩ := exists_raw hk
  obtain ⟨hlt, hnode⟩ := h.heap_raw href
  have hpending : ∀ x ∈ [k], x ∈ m.raw.keys := by simpa using hk
  have hfrontier : Frontier m s₀.heap [k] [] := by simp [Frontier]
  obtain ⟨b, hr, hb⟩ := coldLoop_spec h rfl hpending hfrontier
  have hcold : b = (m.eager A s₀.heap k).coldStart := by
    rw [Bool.eq_iff_iff, hb, eager_cold]
    simp
  by_cases hsame : (s.heap ref).coldStart = b
  · refine ⟨s, ref, hr.map fun fuel hf => ?_, h, .refl s, hlt, ?_⟩
    · simp [NodeMap.rawGet, href, hf, hsame]
    · rw [← hcold, ← hsame, hnode]
  · have hfresh := (Store.fresh_copy s ref).write fun n => { n with coldStart := b }
    refine ⟨_, s.next, hr.map fun fuel hf => ?_, h.extend hfresh.keeps fun x y hx => ?_, hfresh.keeps, hfresh.lt, ?_⟩
    · simp [NodeMap.rawGet, href, hf, hsame]
    · exact .inl (hfresh.resolved ▸ hx)
    · rw [hfresh.node, hnode, hcold]

theorem Valid.step (h : Valid A m s₀ s) {l : Read κ × ℕ} (hstep : (m.reads A).step s l t) :
    Valid A m s₀ t ∧ Store.Extends s t ∧ l.2 < t.next := by
  obtain ⟨op, ref⟩ := l
  cases op with
  | getitem k =>
    by_cases hk : k ∈ m.raw.keys
    · obtain ⟨u, x, hr, hu, hsu, hx, -⟩ := h.getitem hk
      cases hr.unique hstep
      exact ⟨hu, hsu, hx⟩
    · have herror : Returns (m.getitem A s k) (.error k) :=
        .const fun fuel => by rw [NodeMap.getitem, PyDict.get?_eq_none.mpr hk]; rfl
      cases herror.unique hstep
  | rawGet k =>
    by_cases hk : k ∈ m.raw.keys
    · obtain ⟨u, x, hr, hu, hsu, hx, -⟩ := h.rawGet hk
      cases hr.unique hstep
      exact ⟨hu, hsu, hx⟩
    · have hnone : Returns (m.rawGet s k) (.ok (s, none)) :=
        .const fun fuel => by rw [NodeMap.rawGet, PyDict.get?_eq_none.mpr hk]
      cases hnone.unique hstep

theorem Valid.run (h : Valid A m s₀ s) {as : List (Read κ × ℕ)} (hr : Run (m.reads A) s as t) :
    Valid A m s₀ t ∧ Store.Extends s t ∧ ∀ l ∈ as, l.2 < t.next := by
  induction hr with
  | nil => exact ⟨h, .refl s, by simp⟩
  | snoc hr hstep ih =>
    obtain ⟨hu, hsu, hrefs⟩ := ih
    obtain ⟨ht, hut, href⟩ := hu.step hstep
    refine ⟨ht, hsu.trans hut, fun l hl => ?_⟩
    rcases List.mem_append.mp hl with hl | hl
    · exact (hrefs l hl).trans_le hut.next
    · rwa [List.mem_singleton.mp hl]

structure Lazy (A : Arithmetic F) (m : NodeMap κ F) (s₀ s : Store κ F ρ) : Prop where
  getitem : ∀ k ∈ m.raw.keys, ∃ t ref, Returns (m.getitem A s k) (.ok (t, ref)) ∧ t.heap ref = m.eager A s₀.heap k
  keyError : ∀ k ∉ m.raw.keys, Returns (m.getitem A s k) (.error k)
  rawGet : ∀ k ∈ m.raw.keys, ∃ t ref, Returns (m.rawGet s k) (.ok (t, some ref)) ∧
    t.heap ref = { m.nodeOf s₀.heap k with coldStart := (m.eager A s₀.heap k).coldStart }
  unmodified : ∀ as t, Run (m.reads A) s as t → (∀ ref < s.next, t.heap ref = s.heap ref) ∧ ∀ l ∈ as, l.2 < t.next

theorem lazy_shrinkage (A : Arithmetic F) (m : NodeMap κ F) (s₀ : Store κ F ρ) (hs : m.Start s₀) :
    (∀ k, m.eager A s₀.heap k = m.shrunk A (m.nodeOf s₀.heap k) ((m.parentsOf k).map (m.eager A s₀.heap))) ∧
      (∀ k ref, m.raw.get? k = some ref → ref < s₀.next) ∧
      ∀ as s, Run (m.reads A) s₀ as s → Lazy A m s₀ s := by
  refine ⟨m.eager_eq A s₀.heap, hs.2, fun as s hr => ?_⟩
  obtain ⟨h, -, -⟩ := (Valid.start hs : Valid A m s₀ s₀).run hr
  refine ⟨fun k hk => ?_, fun k hk => ?_, fun k hk => ?_, fun bs t ht => ?_⟩
  · obtain ⟨t, ref, hr, -, -, -, he⟩ := h.getitem hk
    exact ⟨t, ref, hr, he⟩
  · exact .const fun fuel => by rw [NodeMap.getitem, PyDict.get?_eq_none.mpr hk]; rfl
  · obtain ⟨t, ref, hr, -, -, -, he⟩ := h.rawGet hk
    exact ⟨t, ref, hr, he⟩
  · obtain ⟨-, hext, hrefs⟩ := h.run ht
    exact ⟨hext.heap, hrefs⟩

end NodeMap

section Example

def rationalMedian (l : List ℚ) : ℚ :=
  let sorted := l.insertionSort (· ≤ ·)
  if l.length % 2 = 1 then sorted.getD (l.length / 2) 0
  else (sorted.getD (l.length / 2 - 1) 0 + sorted.getD (l.length / 2) 0) / 2

def rationals : Arithmetic ℚ where
  zero := 0
  square x := x ^ 2
  median := rationalMedian
  blend count own kappa prior := ((count - 1) * own + kappa * prior) / ((count - 1) + kappa)
  ne x y := x != y
  eq_of_ne x y h := by simpa using h

theorem sharedParents_nodup : ([(0, []), (1, [0]), (2, [0, 1])] : List (ℕ × List ℕ)).map Prod.fst |>.Nodup := by decide

theorem sharedRaw_nodup : ([(0, 0), (1, 1), (2, 2)] : List (ℕ × ℕ)).map Prod.fst |>.Nodup := by decide

def sharedRaw : PyDict ℕ ℕ := ⟨[(0, 0), (1, 1), (2, 2)], sharedRaw_nodup⟩

def sharedParents : PyDict ℕ (List ℕ) := ⟨[(0, []), (1, [0]), (2, [0, 1])], sharedParents_nodup⟩

theorem sharedParents_closed : ∀ k ∈ sharedRaw.keys, ∃ ps, sharedParents.get? k = some ps ∧ ∀ p ∈ ps,
    p ∈ sharedRaw.keys := by
  intro k hk
  simp only [sharedRaw, PyDict.keys, List.map_cons, List.map_nil, List.mem_cons, List.not_mem_nil, or_false] at hk
  rcases hk with rfl | rfl | rfl
  · exact ⟨[], rfl, by decide⟩
  · exact ⟨[0], rfl, by decide⟩
  · exact ⟨[0, 1], rfl, by decide⟩

theorem sharedParents_lt {p k : ℕ} (h : TransGen (fun p k => ∃ ps, sharedParents.get? k = some ps ∧ p ∈ ps) p k) :
    p < k := by
  induction h using TransGen.trans_induction_on with
  | single hpk =>
    obtain ⟨ps, hps, hp⟩ := hpk
    have hm := PyDict.mem_of_get? hps
    simp only [sharedParents, List.mem_cons, List.not_mem_nil, or_false, Prod.mk.injEq] at hm
    rcases hm with ⟨rfl, rfl⟩ | ⟨rfl, rfl⟩ | ⟨rfl, rfl⟩
    · cases hp
    · simp only [List.mem_cons, List.not_mem_nil, or_false] at hp
      omega
    · simp only [List.mem_cons, List.not_mem_nil, or_false] at hp
      omega
  | trans _ _ h₁ h₂ => exact h₁.trans h₂

theorem sharedParents_acyclic (k : ℕ) :
    ¬TransGen (fun p k => ∃ ps, sharedParents.get? k = some ps ∧ p ∈ ps) k k := by
  intro h
  exact Nat.lt_irrefl k (sharedParents_lt h)

def sharedAncestor : NodeMap ℕ ℚ where
  raw := sharedRaw
  parents := sharedParents
  std := 1 / 2
  kappa := 1
  closed := sharedParents_closed
  acyclic := sharedParents_acyclic

def sharedNodes : Store ℕ ℚ Unit where
  heap ref := ⟨if ref = 1 then 1 else 3, 2, 2, 0, true, ()⟩
  next := 3

theorem sharedNodes_start : sharedAncestor.Start sharedNodes := by
  refine ⟨rfl, fun k ref hk => ?_⟩
  have hm := PyDict.mem_of_get? hk
  simp only [sharedAncestor, sharedRaw, List.mem_cons, List.not_mem_nil, or_false, Prod.mk.injEq] at hm
  change ref < 3
  omega

theorem lazy_shrinkage_shared :
    ∃ t ref, Returns (sharedAncestor.getitem rationals sharedNodes 2) (.ok (t, ref)) ∧
      t.heap ref = sharedAncestor.eager rationals sharedNodes.heap 2 :=
  ((NodeMap.lazy_shrinkage rationals sharedAncestor sharedNodes sharedNodes_start).2.2 [] sharedNodes .nil).getitem 2
    (by decide)

end Example

end ClawBox.Knowledge
