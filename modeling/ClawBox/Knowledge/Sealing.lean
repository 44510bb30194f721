import ClawBox.Knowledge.Branches

namespace ClawBox.Knowledge

variable {κ α : Type} [DecidableEq κ]

def Container.publish : Container κ α → Container κ α
  | .repo r => .repo { r with sealed := true }
  | o => o

@[simp] theorem Container.publish_publish (o : Container κ α) : o.publish.publish = o.publish := by
  cases o <;> rfl

namespace Heap

def Under (h : Heap κ α) : ℕ → ℕ → ℕ → Prop
  | 0, s, b => b = s
  | n + 1, s, b => b = s ∨ ∃ r k c, h.repo? s = some r ∧ k ∈ r.owned.keys ∧ r.data.get? k = some c ∧ Under h n c b

def Owned (h : Heap κ α) : ℕ → ℕ → Prop
  | 0, s => ∃ c, h[s]? = some (.samples c)
  | n + 1, s => ∃ r, h.repo? s = some r ∧ r.depth = n + 1 ∧ ∀ k c, k ∈ r.owned.keys → r.data.get? k = some c →
    Owned h n c

def Publishes (h h' : Heap κ α) (U : ℕ → Prop) : Prop :=
  ∀ b : ℕ, (U b → h'[b]? = h[b]?.map Container.publish) ∧ (¬ U b → h'[b]? = h[b]?)

def Same (h h' : Heap κ α) : Prop := ∀ b : ℕ, h'[b]?.map Container.publish = h[b]?.map Container.publish

theorem Publishes.same {h h' : Heap κ α} {U : ℕ → Prop} (hp : Publishes h h' U) : Same h h' := by
  intro b
  by_cases hb : U b
  · rw [(hp b).1 hb, Option.map_map]
    apply Option.map_congr
    intro o _
    exact o.publish_publish
  · rw [(hp b).2 hb]

theorem Publishes.trans {h h₁ h₂ : Heap κ α} {U V : ℕ → Prop} (hp : Publishes h h₁ U) (hq : Publishes h₁ h₂ V) :
    Publishes h h₂ fun b => U b ∨ V b := by
  intro b
  constructor
  · intro hb
    by_cases hv : V b
    · rw [(hq b).1 hv]
      exact hp.same b
    · rw [(hq b).2 hv, (hp b).1 (hb.resolve_right hv)]
  · intro hb
    rw [not_or] at hb
    rw [(hq b).2 hb.2, (hp b).2 hb.1]

theorem Publishes.congr {h h' : Heap κ α} {U V : ℕ → Prop} (hp : Publishes h h' U) (huv : ∀ b, U b ↔ V b) :
    Publishes h h' V :=
  fun b => ⟨fun hb => (hp b).1 ((huv b).2 hb), fun hb => (hp b).2 fun hu => hb ((huv b).1 hu)⟩

theorem repo?_eq_some {h : Heap κ α} {a : ℕ} {r : RepositoryTransaction κ} :
    h.repo? a = some r ↔ h[a]? = some (.repo r) := by
  refine ⟨fun hr => ?_, repo?_eq⟩
  unfold repo? at hr
  split at hr
  · cases hr
    assumption
  · cases hr

theorem Same.symm {h h' : Heap κ α} (hs : Same h h') : Same h' h := fun b => (hs b).symm

theorem Same.length {h h' : Heap κ α} (hs : Same h h') : h'.length = h.length := by
  have hiff : ∀ b : ℕ, h'[b]? = none ↔ h[b]? = none := by
    intro b
    have hb := hs b
    rw [← Option.map_eq_none_iff (f := Container.publish), hb, Option.map_eq_none_iff]
  simp only [List.getElem?_eq_none_iff] at hiff
  have h₁ := (hiff h.length).2 le_rfl
  have h₂ := (hiff h'.length).1 le_rfl
  omega

theorem Same.repo {h h' : Heap κ α} (hs : Same h h') {a : ℕ} {r : RepositoryTransaction κ} (hr : h.repo? a = some r) :
    ∃ r', h'.repo? a = some r' ∧ r'.data = r.data ∧ r'.owned = r.owned ∧ r'.depth = r.depth := by
  rw [repo?_eq_some] at hr
  have hb := hs a
  rw [hr] at hb
  obtain ⟨o, ho, hpub⟩ := Option.map_eq_some_iff.1 hb
  cases o with
  | repo r' =>
    simp only [Container.publish, Container.repo.injEq, RepositoryTransaction.mk.injEq] at hpub
    exact ⟨r', repo?_eq ho, hpub.1, hpub.2.2.1, hpub.2.1⟩
  | dict d => cases hpub
  | list l => cases hpub
  | samples c => cases hpub

theorem Same.under {h h' : Heap κ α} (hs : Same h h') (n : ℕ) {s b : ℕ} (hu : h.Under n s b) : h'.Under n s b := by
  induction n generalizing s with
  | zero => exact hu
  | succ n ih =>
    rcases hu with hb | ⟨r, k, c, hr, hk, hc, hu⟩
    · exact .inl hb
    · obtain ⟨r', hr', hdata, howned, -⟩ := hs.repo hr
      exact .inr ⟨r', k, c, hr', by rwa [howned], by rwa [hdata], ih hu⟩

theorem Same.owned {h h' : Heap κ α} (hs : Same h h') (n : ℕ) {s : ℕ} (ho : h.Owned n s) : h'.Owned n s := by
  induction n generalizing s with
  | zero =>
    obtain ⟨c, hc⟩ := ho
    have hb := hs s
    rw [hc] at hb
    obtain ⟨o, ho, hpub⟩ := Option.map_eq_some_iff.1 hb
    cases o with
    | samples c' => exact ⟨c', ho⟩
    | dict d => cases hpub
    | list l => cases hpub
    | repo r => cases hpub
  | succ n ih =>
    obtain ⟨r, hr, hd, hchild⟩ := ho
    obtain ⟨r', hr', hdata, howned, hdepth⟩ := hs.repo hr
    refine ⟨r', hr', hdepth.trans hd, fun k c hk hc => ?_⟩
    rw [howned] at hk
    rw [hdata] at hc
    exact ih (hchild k c hk hc)

theorem Same.dataOf {h h' : Heap κ α} (hs : Same h h') (a : ℕ) : h'.dataOf a = h.dataOf a := by
  have hb := hs a
  unfold Heap.dataOf
  cases ho : h[a]? with
  | none =>
    rw [ho, Option.map_none, Option.map_eq_none_iff] at hb
    rw [hb]
  | some o =>
    rw [ho] at hb
    obtain ⟨o', ho', hpub⟩ := Option.map_eq_some_iff.1 hb
    rw [ho']
    cases o <;> cases o' <;> simp_all [Container.publish]

theorem Same.tree {h h' : Heap κ α} (hs : Same h h') (n a : ℕ) : h'.tree n a = h.tree n a := by
  induction n generalizing a with
  | zero =>
    have hb := hs a
    rw [Heap.tree, Heap.tree]
    cases ho : h[a]? with
    | none =>
      rw [ho, Option.map_none, Option.map_eq_none_iff] at hb
      rw [hb]
    | some o =>
      rw [ho] at hb
      obtain ⟨o', ho', hpub⟩ := Option.map_eq_some_iff.1 hb
      rw [ho']
      cases o <;> cases o' <;> first | rfl | (cases hpub <;> rfl)
  | succ n ih =>
    rw [Heap.tree, Heap.tree, hs.dataOf]
    apply PyDict.mapValues_congr
    intro k b _
    exact ih b

theorem Under.refl (h : Heap κ α) (n s : ℕ) : h.Under n s s := by
  cases n with
  | zero => rfl
  | succ n => exact .inl rfl

theorem publishes_loop {n : ℕ} {f : Heap κ α → ℕ → Heap κ α}
    (hf : ∀ h c, Owned h n c → Publishes h (f h c) (Under h n c)) {h : Heap κ α} {r : RepositoryTransaction κ}
    (hchild : ∀ k c, k ∈ r.owned.keys → r.data.get? k = some c → Owned h n c) {keys : List κ}
    (hkeys : ∀ k ∈ keys, k ∈ r.owned.keys) : ∀ h₁ : Heap κ α, Same h h₁ →
      Publishes h₁ (keys.foldl (fun h key => (r.data.get? key).elim h (f h)) h₁)
        (fun b => ∃ k c, k ∈ keys ∧ r.data.get? k = some c ∧ h.Under n c b) := by
  induction keys with
  | nil =>
    intro h₁ _ b
    refine ⟨?_, fun _ => rfl⟩
    rintro ⟨k, c, hk, -⟩
    cases hk
  | cons k keys ih =>
    intro h₁ hs
    have hk := hkeys k List.mem_cons_self
    obtain ⟨c, hc⟩ := Option.isSome_iff_exists.1 (PyDict.mem_keys.1 (r.inside k hk))
    have hp := hf h₁ c (hs.owned n (hchild k c hk hc))
    have hs₂ : Same h (f h₁ c) := fun b => (hp.same b).trans (hs b)
    have hrest := ih (fun x hx => hkeys x (List.mem_cons_of_mem _ hx)) _ hs₂
    rw [List.foldl_cons, hc, Option.elim_some]
    apply (hp.trans hrest).congr
    intro b
    constructor
    · rintro (hb | ⟨x, y, hx, hy, hb⟩)
      · exact ⟨k, c, List.mem_cons_self, hc, hs.symm.under n hb⟩
      · exact ⟨x, y, List.mem_cons_of_mem _ hx, hy, hb⟩
    · rintro ⟨x, y, hx, hy, hb⟩
      rcases List.mem_cons.1 hx with rfl | hx
      · rw [hc] at hy
        cases hy
        exact .inl (hs.under n hb)
      · exact .inr ⟨x, y, hx, hy, hb⟩

theorem publishes_self {h : Heap κ α} {s : ℕ} {o : Container κ α} (ho : h[s]? = some o) :
    Publishes h (h.set s o.publish) (· = s) := by
  intro b
  constructor
  · rintro rfl
    rw [List.getElem?_set_self (List.getElem?_eq_some_iff.1 ho).1, ho, Option.map_some]
  · intro hb
    exact List.getElem?_set_ne (Ne.symm hb)

theorem publishes_sealRepo (n : ℕ) : ∀ (h : Heap κ α) (s : ℕ), h.Owned (n + 1) s →
    Publishes h (h.sealRepo (n + 1) s) (h.Under (n + 1) s) := by
  induction n with
  | zero =>
    intro h s ⟨r, hr, hd, hchild⟩ b
    have hset : h.sealRepo 1 s = h.set s (Container.repo r).publish := by
      simp [sealRepo, hr, hd, Container.publish]
    have hp := publishes_self (repo?_eq_some.1 hr) b
    rw [hset]
    constructor
    · rintro (rfl | ⟨r', k, c, hr', hk, hc, rfl⟩)
      · exact hp.1 rfl
      -- Samples are not sealed, and need not be.
      · rw [hr] at hr'
        cases hr'
        obtain ⟨x, hx⟩ := hchild k b hk hc
        have hne : b ≠ s := by
          rintro rfl
          rw [repo?_eq_some, hx] at hr
          cases hr
        rw [hp.2 hne, hx]
        rfl
    · intro hb
      exact hp.2 fun he => hb (.inl he)
  | succ n ih =>
    intro h s ⟨r, hr, hd, hchild⟩
    have hloop := publishes_loop ih hchild (fun _ hk => hk) h (fun _ => rfl)
    obtain ⟨r', hr', hdata, howned, hdepth⟩ := hloop.same.repo hr
    have hpub : (Container.repo r' : Container κ α).publish = .repo { r with sealed := true } := by
      simp only [Container.publish, Container.repo.injEq, RepositoryTransaction.mk.injEq]
      exact ⟨hdata, hdepth, howned, trivial⟩
    have hself := publishes_self (repo?_eq_some.1 hr')
    rw [hpub] at hself
    have hset : h.sealRepo (n + 2) s =
        (r.owned.keys.foldl (fun h key => (r.data.get? key).elim h (sealRepo h (n + 1))) h).set s
        (.repo { r with sealed := true }) := by
      rw [sealRepo, hr]
      simp only [if_pos (by omega : r.depth > 1)]
    rw [hset]
    apply (hloop.trans hself).congr
    intro b
    constructor
    · rintro (⟨k, c, hk, hc, hb⟩ | rfl)
      · exact .inr ⟨r, k, c, hr, hk, hc, hb⟩
      · exact .inl rfl
    · rintro (rfl | ⟨x, k, c, hx, hk, hc, hb⟩)
      · exact .inr rfl
      · rw [hr] at hx
        cases hx
        exact .inl ⟨k, c, hk, hc, hb⟩

theorem Inv.owned {h : Heap κ α} {g : ℕ → Mark κ} (hi : h.Inv g) (n : ℕ) {s : ℕ} (hlt : s < h.length)
    (hf : ¬ (g s).frozen) (hl : (g s).level = n) : h.Owned n s := by
  induction n generalizing s with
  | zero => exact hi.samples hlt hf hl
  | succ n ih =>
    obtain ⟨r, hr, hd, -⟩ := hi.repo hlt hf hl
    refine ⟨r, repo?_eq hr, hd, fun k c hk hc => ?_⟩
    obtain ⟨hlc, hlevel, -, hown⟩ := (hi s _ hr).2.2.2 k c hc
    exact ih hlc (hown hf hk).1 (by omega)

theorem Inv.under {h : Heap κ α} {g : ℕ → Mark κ} (hi : h.Inv g) (n : ℕ) {s b : ℕ} (hf : ¬ (g s).frozen)
    (hl : (g s).level = n) (hb : h.Under n s b) : ¬ (g b).frozen ∧ (g b).owner = (g s).owner ∧
    (b = s ∨ h.Under n s (g b).parent) := by
  induction n generalizing s with
  | zero =>
    cases hb
    exact ⟨hf, rfl, .inl rfl⟩
  | succ n ih =>
    rcases hb with rfl | ⟨r, k, c, hr, hk, hc, hb⟩
    · exact ⟨hf, rfl, .inl rfl⟩
    · obtain ⟨-, hlevel, -, hown⟩ := (hi s _ (repo?_eq_some.1 hr)).2.2.2 k c hc
      obtain ⟨hfc, howner, -, hparent⟩ := hown hf hk
      obtain ⟨hfb, hbo, hbp⟩ := ih hfc (by omega) hb
      refine ⟨hfb, hbo.trans howner, .inr ?_⟩
      rcases hbp with rfl | hbp
      · rw [hparent]
        exact Under.refl h _ s
      · exact .inr ⟨r, k, c, hr, hk, hc, hbp⟩

theorem Inv.under_child {h : Heap κ α} {g : ℕ → Mark κ} (hi : h.Inv g) (n : ℕ) {s a : ℕ} (hf : ¬ (g s).frozen)
    (hl : (g s).level = n) (ha : h.Under n s a) {r : RepositoryTransaction κ} (hr : h[a]? = some (.repo r)) {k : κ}
    {b : ℕ} (hk : k ∈ r.owned.keys) (hb : r.data.get? k = some b) : h.Under n s b := by
  induction n generalizing s with
  | zero =>
    cases ha
    obtain ⟨hlevel, hpos, -⟩ := hi _ _ hr
    omega
  | succ n ih =>
    rcases ha with rfl | ⟨r', x, c, hr', hx, hc, ha⟩
    · exact .inr ⟨r, k, b, repo?_eq hr, hk, hb, Under.refl h n b⟩
    · obtain ⟨-, hlevel, -, hown⟩ := (hi s _ (repo?_eq_some.1 hr')).2.2.2 x c hc
      exact .inr ⟨r', x, c, hr', hx, hc, ih (hown hf hx).1 (by omega) ha⟩

def sealMarks (h : Heap κ α) (g : ℕ → Mark κ) (n s : ℕ) (a : ℕ) : Mark κ :=
  { g a with frozen := (g a).frozen ∨ h.Under n s a }

theorem Inv.publishes {h h' : Heap κ α} {g : ℕ → Mark κ} (hi : h.Inv g) {n s : ℕ} (hf : ¬ (g s).frozen)
    (hl : (g s).level = n) (hroot : (g s).path = []) (hp : Publishes h h' (h.Under n s)) :
    h'.Inv (sealMarks h g n s) := by
  intro a o ho
  rw [hp.same.length]
  by_cases ha : h.Under n s a
  · rw [(hp a).1 ha] at ho
    obtain ⟨x, hx, rfl⟩ := Option.map_eq_some_iff.1 ho
    have hplaced := hi a x hx
    have hfa := (hi.under n hf hl ha).1
    cases x with
    | dict d => exact absurd hplaced.1 hfa
    | list l => exact absurd hplaced.1 hfa
    | samples c => exact hplaced
    | repo r =>
      obtain ⟨hlevel, hpos, -, hchild⟩ := hplaced
      refine ⟨hlevel, hpos, ⟨fun _ => .inr ha, fun _ => rfl⟩, ?_⟩
      intro k b hb
      obtain ⟨hlt, hbl, hfrozen, -⟩ := hchild k b hb
      refine ⟨hlt, hbl, fun _ => ?_, fun hnf => absurd (.inr ha) hnf⟩
      by_cases hk : k ∈ r.owned.keys
      · exact .inr (hi.under_child n hf hl ha hx hk hb)
      · exact .inl (hfrozen (.inr hk))
  · rw [(hp a).2 ha] at ho
    have hplaced := hi a o ho
    cases o with
    | dict d =>
      obtain ⟨hfa, hpos, hchild⟩ := hplaced
      refine ⟨.inl hfa, hpos, fun k b hb => ?_⟩
      obtain ⟨hlt, hbl, hfb⟩ := hchild k b hb
      exact ⟨hlt, hbl, .inl hfb⟩
    | list l => exact ⟨.inl hplaced.1, hplaced.2⟩
    | samples c => exact hplaced
    | repo r =>
      obtain ⟨hlevel, hpos, hsealed, hchild⟩ := hplaced
      have hsame : (sealMarks h g n s a).frozen ↔ (g a).frozen := ⟨fun h => h.resolve_right ha, .inl⟩
      refine ⟨hlevel, hpos, hsealed.trans hsame.symm, ?_⟩
      intro k b hb
      obtain ⟨hlt, hbl, hfrozen, hown⟩ := hchild k b hb
      refine ⟨hlt, hbl, fun h => .inl (hfrozen (h.imp_left hsame.1)), ?_⟩
      intro hfa hk
      obtain ⟨h₁, h₂, h₃, h₄⟩ := hown (fun h => hfa (hsame.2 h)) hk
      refine ⟨?_, h₂, h₃, h₄⟩
      -- A branch of `a` that is sealed with `s` would have `a` sealed with it.
      rintro (hfb | hub)
      · exact h₁ hfb
      · rcases (hi.under n hf hl hub).2.2 with rfl | hparent
        · rw [hroot] at h₃
          simp at h₃
        · rw [h₄] at hparent
          exact ha hparent

end Heap

end ClawBox.Knowledge
