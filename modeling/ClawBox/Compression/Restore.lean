import ClawBox.Compression.Recovery

namespace ClawBox.Compression

open Transition Raising

variable {Data Box : Type} {b : Binary Data Box} {candidates : List String} {fs₀ fs fs' : Fs Data Box}
  {rs : List Record} {r : Record} {x : DecompressFates} {L : String → Prop}

theorem Fs.get?_create (fs : Fs Data Box) (p q : String) (f : File Data) :
    (fs.create p f).links.get? q = if q = p then some fs.fresh else fs.links.get? q :=
  PyDict.get?_set _ _ _ _

theorem Kept.create (hk : Kept b candidates fs₀ fs) (hm : fs.manifest = some rs) (hr : r ∈ rs)
    (hnone : fs.links.get? r.canonical = none) {j : ℕ} (hj : fs₀.links.get? r.canonical = some j) (mode : ℕ) :
    Kept b candidates fs₀ (fs.create r.canonical ⟨(fs₀.inodes j).data, mode⟩) := by
  have hvalid := hk.valid rs hm r hr
  obtain ⟨j', hj', hlayer⟩ := hvalid.layer
  obtain rfl := Option.some.inj (hj.symm.trans hj')
  have hlinks := Fs.get?_create fs r.canonical (f := ⟨(fs₀.inodes j).data, mode⟩)
  -- a link of the layer is its new inode or one that is not of this layer
  have hother : ∀ q ∈ candidates, ∀ i k, fs.links.get? q = some i → fs₀.links.get? q = some k → i < fs.fresh ∧
      k ≠ j := by
    intro q hq i k hi hkq
    refine ⟨hk.faithful.fresh q i hi, ?_⟩
    rintro rfl
    rw [(hk.gone rs hm r hr hnone).1 q ((hlayer q hq).mpr hkq)] at hi
    cases hi
  refine ⟨⟨?_, ?_, ?_⟩, hk.valid, hk.unique, ?_, ?_, hk.directory⟩
  · intro p i hi
    rw [hlinks] at hi
    change i < fs.fresh + 1
    split_ifs at hi with hp
    · obtain rfl := Option.some.inj hi
      omega
    · have := hk.faithful.fresh p i hi
      omega
  · intro p hp i hi
    rw [hlinks] at hi
    split_ifs at hi with hpc
    · obtain rfl := Option.some.inj hi
      refine ⟨j, hpc ▸ hj, ?_⟩
      simp [Fs.create]
    · obtain ⟨k, hkp, hdata⟩ := hk.faithful.data p hp i hi
      refine ⟨k, hkp, ?_⟩
      have hne : i ≠ fs.fresh := Nat.ne_of_lt (hk.faithful.fresh p i hi)
      simpa [Fs.create, Function.update_of_ne hne] using hdata
  · intro p hp q hq i i' k k' hi hi' hkp hkq
    rw [hlinks] at hi hi'
    split_ifs at hi hi' with hpc hqc
    · rw [hpc] at hkp
      rw [hqc] at hkq
      obtain rfl := Option.some.inj hi
      obtain rfl := Option.some.inj hi'
      obtain rfl := Option.some.inj (hkp.symm.trans hkq)
      simp
    · obtain rfl := Option.some.inj hi
      rw [hpc, hj] at hkp
      obtain rfl := Option.some.inj hkp
      obtain ⟨hlt, hne⟩ := hother q hq i' k' hi' hkq
      exact iff_of_false (by omega) (Ne.symm hne)
    · obtain rfl := Option.some.inj hi'
      rename_i hqc
      rw [hqc, hj] at hkq
      obtain rfl := Option.some.inj hkq
      obtain ⟨hlt, hne⟩ := hother p hp i k hi hkp
      exact iff_of_false (by omega) hne
    · exact hk.faithful.same p hp q hq i i' k k' hi hi' hkp hkq
  · intro rs' hrs' r' hr' hnone'
    obtain rfl := Option.some.inj (hm.symm.trans hrs')
    rw [hlinks] at hnone'
    split_ifs at hnone' with hne
    obtain ⟨hgone, hpacked⟩ := hk.gone rs hm r' hr' hnone'
    refine ⟨?_, hpacked⟩
    intro q hq
    rw [hlinks, if_neg, hgone q hq]
    rintro rfl
    exact hne (hk.unique rs hm r hr r' hr' hq).symm
  · intro p hp hhome hnone'
    rw [hlinks] at hnone'
    split_ifs at hnone'
    exact hk.covered p hp hhome hnone'

theorem Kept.link (hk : Kept b candidates fs₀ fs) (hm : fs.manifest = some rs) (hr : r ∈ rs) {a : String}
    (ha : a ∈ r.paths) {i : ℕ} (hi : fs.links.get? r.canonical = some i) :
    Kept b candidates fs₀ { fs with links := fs.links.set a i } := by
  have hvalid := hk.valid rs hm r hr
  obtain ⟨j, hj, hlayer⟩ := hvalid.layer
  have hcanonical := hvalid.canonical_mem
  have haj : fs₀.links.get? a = some j := (hlayer a (hvalid.owned a ha)).mp ha
  have hlinks := fun q => PyDict.get?_set fs.links a q i
  -- every link stands for one that was there before
  have hsource : ∀ p ∈ candidates, ∀ k, (fs.links.set a i).get? p = some k →
      ∃ p' ∈ candidates, fs.links.get? p' = some k ∧ fs₀.links.get? p' = fs₀.links.get? p := by
    intro p hp k hk'
    rw [hlinks] at hk'
    split_ifs at hk' with hpa
    · obtain rfl := Option.some.inj hk'
      exact ⟨r.canonical, hcanonical, hi, by rw [hpa, hj, haj]⟩
    · exact ⟨p, hp, hk', rfl⟩
  refine ⟨⟨?_, ?_, ?_⟩, hk.valid, hk.unique, ?_, ?_, hk.directory⟩
  · intro p k hk'
    rw [hlinks] at hk'
    split_ifs at hk'
    · obtain rfl := Option.some.inj hk'
      exact hk.faithful.fresh _ _ hi
    · exact hk.faithful.fresh p k hk'
  · intro p hp k hk'
    obtain ⟨p', hp', hlink, hsame⟩ := hsource p hp k hk'
    rw [← hsame]
    exact hk.faithful.data p' hp' k hlink
  · intro p hp q hq k k' l l' hkp hkq hlp hlq
    obtain ⟨p', hp', hlink, hsame⟩ := hsource p hp k hkp
    obtain ⟨q', hq', hlink', hsame'⟩ := hsource q hq k' hkq
    exact hk.faithful.same p' hp' q' hq' k k' l l' hlink hlink' (hsame.trans hlp) (hsame'.trans hlq)
  · intro rs' hrs' r' hr' hnone
    obtain rfl := Option.some.inj (hm.symm.trans hrs')
    rw [hlinks] at hnone
    split_ifs at hnone with hne
    obtain ⟨hgone, hpacked⟩ := hk.gone rs hm r' hr' hnone
    refine ⟨?_, hpacked⟩
    intro q hq
    rw [hlinks, if_neg, hgone q hq]
    rintro rfl
    obtain ⟨j', hj', hlayer'⟩ := (hk.valid rs hm r' hr').layer
    obtain rfl := Option.some.inj (haj.symm.trans ((hlayer' q (hvalid.owned q ha)).mp hq))
    have hmem := (hlayer r'.canonical (hk.valid rs hm r' hr').canonical_mem).mpr hj'
    rw [hk.unique rs hm r' hr' r hr hmem, hi] at hnone
    cases hnone
  · intro p hp hhome hnone
    rw [hlinks] at hnone
    split_ifs at hnone
    exact hk.covered p hp hhome hnone

structure Standing (b : Binary Data Box) (candidates : List String) (fs₀ : Fs Data Box) (rs : List Record)
    (L : String → Prop) (w : Work Data Box) : Prop where
  kept : Kept b candidates fs₀ w.fs
  manifest : w.fs.manifest = some rs
  there : ∀ p, L p → (w.fs.links.get? p).isSome

def Cut (x : DecompressFates) (P : Work Data Box → Prop) (w : Work Data Box) : Prop := P w ∧ x ≠ {}

theorem triple_perform {f : Fate} {g : Fs Data Box → Fs Data Box} {P : Work Data Box → Prop} {Q : Work Data Box → Prop}
    {E : Work Data Box → Prop} (hdone : ∀ w, P w → Q { w with fs := g w.fs }) (hcut : f ≠ .done → ∀ w, P w → E w) :
    Triple P (perform f g) (fun _ => Q) E := by
  intro w hw
  cases f with
  | done => exact hdone w hw
  | fails => exact hcut (by decide) w hw
  | stops => exact hcut (by decide) w hw

theorem triple_perform_id {f : Fate} {P : Work Data Box → Prop} {E : Work Data Box → Prop}
    (hcut : f ≠ .done → ∀ w, P w → E w) : Triple P (perform f id) (fun _ => P) E :=
  triple_perform (fun _ hw => hw) hcut

theorem restoreCanonical_triple (hr : r ∈ rs) :
    Triple (Standing b candidates fs₀ rs L) (restoreCanonical b x r)
      (fun _ => Standing b candidates fs₀ rs fun p => L p ∨ p = r.canonical)
      (Cut x (Standing b candidates fs₀ rs L)) := by
  unfold restoreCanonical
  apply Triple.get_bind
  intro w hw
  apply Triple.ite
  · rintro hsome w rfl
    exact ⟨hw.kept, hw.manifest, by
      rintro p (hp | rfl)
      · exact hw.there p hp
      · exact hsome⟩
  · intro hnone
    rw [Option.not_isSome_iff_eq_none] at hnone
    obtain ⟨-, j, hj, hbox⟩ := hw.kept.gone rs hw.manifest r hr hnone
    have hdata : (w.fs.containers.get? r.container).bind b.decompress = some (fs₀.inodes j).data := by
      rw [hbox, Option.bind_some, b.roundTrip]
    have hcut : ∀ f : Fate, (x = {} → f = .done) → f ≠ .done → ∀ w', w' = w →
        Cut x (Standing b candidates fs₀ rs L) w' := by
      rintro f hf hne w' rfl
      exact ⟨hw, fun hx => hne (hf hx)⟩
    refine .bind (triple_perform_id (hcut _ (by rintro rfl; rfl))) fun _ => ?_
    simp only [hdata]
    refine .bind (triple_perform_id (hcut _ (by rintro rfl; rfl))) fun _ => ?_
    refine .bind (triple_perform_id (hcut _ (by rintro rfl; rfl))) fun _ => ?_
    refine triple_perform ?_ (hcut _ (by rintro rfl; rfl))
    rintro w' rfl
    refine ⟨hw.kept.create hw.manifest hr hnone hj r.mode, hw.manifest, ?_⟩
    intro p hp
    rw [Fs.get?_create]
    split_ifs with hpc
    · rfl
    · rcases hp with hp | hp
      · exact hw.there p hp
      · exact absurd hp hpc

theorem linkAliases_triple (hr : r ∈ rs) {as : List String} (has : ∀ a ∈ as, a ∈ r.paths) :
    Triple (Standing b candidates fs₀ rs fun p => L p ∨ p = r.canonical) (linkAliases x r.canonical as)
      (fun _ => Standing b candidates fs₀ rs fun p => L p ∨ p = r.canonical ∨ p ∈ as)
      (Cut x (Standing b candidates fs₀ rs L)) := by
  induction as generalizing L with
  | nil =>
    refine Triple.pure fun w hw => ⟨hw.kept, hw.manifest, fun p hp => hw.there p ?_⟩
    simpa using hp
  | cons a as ih =>
    rw [linkAliases]
    apply Triple.get_bind
    intro w hw
    have hcanonical := hw.there r.canonical (.inr rfl)
    obtain ⟨i, hi⟩ := Option.isSome_iff_exists.mp hcanonical
    have hrest : Triple (Standing b candidates fs₀ rs fun p => (L p ∨ p = a) ∨ p = r.canonical)
        (linkAliases x r.canonical as) (fun _ => Standing b candidates fs₀ rs fun p => L p ∨ p = r.canonical ∨
          p ∈ a :: as)
        (Cut x (Standing b candidates fs₀ rs L)) := by
      refine (ih (L := fun p => L p ∨ p = a) fun a' ha' => has a' (List.mem_cons_of_mem _ ha')).weaken
        (fun _ h => h) ?_ ?_
      · intro _ w' h
        refine ⟨h.kept, h.manifest, fun p hp => h.there p ?_⟩
        rw [List.mem_cons] at hp
        tauto
      · rintro w' ⟨h, hx⟩
        exact ⟨⟨h.kept, h.manifest, fun p hp => h.there p (.inl hp)⟩, hx⟩
    cases ha : w.fs.links.get? a with
    | some i' =>
      simp only
      rintro w' rfl
      refine hrest w' ⟨hw.kept, hw.manifest, ?_⟩
      rintro p ((hp | rfl) | hp)
      · exact hw.there p (.inl hp)
      · rw [ha]
        rfl
      · exact hw.there p (.inr hp)
    | none =>
      simp only [hi]
      refine .bind (triple_perform (Q := Standing b candidates fs₀ rs fun p => (L p ∨ p = a) ∨ p = r.canonical) ?_ ?_)
        fun _ => hrest
      · rintro w' rfl
        refine ⟨hw.kept.link hw.manifest hr (has a List.mem_cons_self) hi, hw.manifest, ?_⟩
        intro p hp
        simp only [PyDict.get?_set]
        split_ifs with hpa
        · rfl
        · exact hw.there p (by tauto)
      · rintro hne w' rfl
        refine ⟨⟨hw.kept, hw.manifest, fun p hp => hw.there p (.inl hp)⟩, ?_⟩
        rintro rfl
        exact hne rfl

theorem Kept.same_inode (hk : Kept b candidates fs₀ fs) (hm : fs.manifest = some rs) (hr : r ∈ rs) {p : String}
    (hp : p ∈ r.paths) (hpsome : (fs.links.get? p).isSome) (hcsome : (fs.links.get? r.canonical).isSome) :
    fs.links.get? p = fs.links.get? r.canonical := by
  have hvalid := hk.valid rs hm r hr
  obtain ⟨j, hj, hlayer⟩ := hvalid.layer
  obtain ⟨i, hi⟩ := Option.isSome_iff_exists.mp hpsome
  obtain ⟨i', hi'⟩ := Option.isSome_iff_exists.mp hcsome
  have hpj := (hlayer p (hvalid.owned p hp)).mp hp
  rw [hi, hi', (hk.faithful.same p (hvalid.owned p hp) _ hvalid.canonical_mem i i' j j hi hi' hpj hj).mpr rfl]

theorem restoreRecord_triple (hr : r ∈ rs) :
    Triple (Standing b candidates fs₀ rs L) (restoreRecord b x r)
      (fun _ => Standing b candidates fs₀ rs fun p => L p ∨ p ∈ r.paths) (Cut x (Standing b candidates fs₀ rs L)) := by
  unfold restoreRecord
  refine .bind (restoreCanonical_triple hr) fun _ => ?_
  refine .bind (linkAliases_triple hr fun a ha => List.mem_cons_of_mem _ ha) fun _ => ?_
  have hweak : ∀ w, Standing b candidates fs₀ rs (fun p => L p ∨ p = r.canonical ∨ p ∈ r.aliases) w →
      Standing b candidates fs₀ rs L w := fun w hw => ⟨hw.kept, hw.manifest, fun p hp => hw.there p (.inl hp)⟩
  refine .bind (triple_perform_id ?_) fun _ => ?_
  · intro hne w hw
    refine ⟨hweak w hw, ?_⟩
    rintro rfl
    exact hne rfl
  · apply Triple.get_bind
    intro w hw
    have hpaths : ∀ p ∈ r.paths, (w.fs.links.get? p).isSome := fun p hp => hw.there p (.inr (List.mem_cons.mp hp))
    apply Triple.ite
    · rintro - w' rfl
      exact ⟨hw.kept, hw.manifest, fun p hp => hw.there p (hp.imp_right List.mem_cons.mp)⟩
    · intro hnot
      refine absurd (List.all_eq_true.mpr ?_) hnot
      intro p hp
      have hsame := hw.kept.same_inode hw.manifest hr hp (hpaths p hp) (hpaths _ r.canonical_mem)
      simpa [hsame] using hpaths _ r.canonical_mem

theorem restoreRecords_triple {rest : List Record} (hrest : ∀ r ∈ rest, r ∈ rs) :
    Triple (Standing b candidates fs₀ rs L) (restoreRecords b x rest)
      (fun _ => Standing b candidates fs₀ rs fun p => L p ∨ ∃ r ∈ rest, p ∈ r.paths)
      (Cut x (Standing b candidates fs₀ rs L)) := by
  induction rest generalizing L with
  | nil =>
    refine Triple.pure fun w hw => ⟨hw.kept, hw.manifest, fun p hp => hw.there p ?_⟩
    simpa using hp
  | cons r rest ih =>
    rw [restoreRecords]
    refine .bind (restoreRecord_triple (hrest r List.mem_cons_self)) fun _ => ?_
    refine (ih fun r' hr' => hrest r' (List.mem_cons_of_mem _ hr')).weaken (fun _ h => h) ?_ ?_
    · intro _ w hw
      refine ⟨hw.kept, hw.manifest, fun p hp => hw.there p ?_⟩
      simp only [List.mem_cons, exists_eq_or_imp] at hp
      tauto
    · rintro w ⟨hw, hx⟩
      exact ⟨⟨hw.kept, hw.manifest, fun p hp => hw.there p (.inl hp)⟩, hx⟩

def Home (b : Binary Data Box) (candidates : List String) (fs₀ : Fs Data Box) (w : Work Data Box) : Prop :=
  Kept b candidates fs₀ w.fs ∧ Whole candidates fs₀ w.fs

theorem Standing.home {w : Work Data Box} (h : Standing b candidates fs₀ rs (fun p => L p ∨ ∃ r ∈ rs, p ∈ r.paths) w) :
    Home b candidates fs₀ w := by
  refine ⟨h.kept, ?_⟩
  intro p hp hhome
  cases hl : w.fs.links.get? p with
  | some i => rfl
  | none =>
    obtain ⟨rs', r, hrs', hr, hpr⟩ := h.kept.covered p hp hhome hl
    obtain rfl := Option.some.inj (hrs'.symm.trans h.manifest)
    have hthere := h.there p (.inr ⟨r, hr, hpr⟩)
    rw [hl] at hthere
    cases hthere

theorem cut_of {P : Work Data Box → Prop} {f : Fate} (hf : x = {} → f = .done) : f ≠ .done → ∀ w, P w → Cut x P w :=
  fun hne _ hw => ⟨hw, fun hx => hne (hf hx)⟩

theorem dropContainers_triple (rs : List Record) :
    Triple (Home b candidates fs₀) (dropContainers x.dropContainer rs) (fun _ => Home b candidates fs₀)
      (Cut x (Home b candidates fs₀)) := by
  induction rs with
  | nil => exact .pure fun _ h => h
  | cons r rs ih =>
    refine .bind (triple_perform ?_ (cut_of (by rintro rfl; rfl))) fun _ => ih
    rintro w ⟨hk, hw⟩
    have haside : Aside w.fs { w.fs with containers := w.fs.containers.pop r.container } := ⟨rfl, rfl, rfl⟩
    exact ⟨hk.cleanup hw haside (.inl ⟨rfl, .inl rfl⟩), haside.whole hw⟩

theorem rmtree_triple :
    Triple (Home b candidates fs₀) (rmtree x.rmtree)
      (fun _ w => Home b candidates fs₀ w ∧ (x.rmtree ≠ .fails → w.fs.directory = false))
      (Cut x (Home b candidates fs₀)) := by
  rintro w ⟨hk, hw⟩
  have haside : Aside w.fs { w.fs with directory := false, containers := ∅ } := ⟨rfl, rfl, rfl⟩
  cases hf : x.rmtree with
  | done => exact ⟨⟨hk.cleanup hw haside (.inl ⟨rfl, .inr rfl⟩), haside.whole hw⟩, fun _ => rfl⟩
  | fails => exact ⟨⟨hk, hw⟩, fun h => absurd rfl h⟩
  | stops =>
    refine ⟨⟨hk, hw⟩, ?_⟩
    rintro rfl
    cases hf

theorem dropManifest_triple (hx : x.rmtree = .fails → x.dropManifest ≠ .done) :
    Triple (fun w => Home b candidates fs₀ w ∧ (x.rmtree ≠ .fails → w.fs.directory = false))
    (dropManifest x.dropManifest)
      (fun _ w => Home b candidates fs₀ w ∧ w.fs.manifest = none) (Cut x (Home b candidates fs₀)) := by
  rintro w ⟨⟨hk, hw⟩, hdir⟩
  cases hf : x.dropManifest with
  | done =>
    have haside : Aside w.fs { w.fs with manifest := none } := ⟨rfl, rfl, rfl⟩
    have hrm : x.rmtree ≠ .fails := fun h => hx h hf
    exact ⟨⟨hk.cleanup hw haside (.inr ⟨rfl, hdir hrm⟩), haside.whole hw⟩, rfl⟩
  | fails =>
    refine ⟨⟨hk, hw⟩, ?_⟩
    rintro rfl
    cases hf
  | stops =>
    refine ⟨⟨hk, hw⟩, ?_⟩
    rintro rfl
    cases hf

theorem decompressSnapshot_triple (hx : x.rmtree = .fails → x.dropManifest ≠ .done) :
    Triple (fun w => Kept b candidates fs₀ w.fs) (decompressSnapshot b x)
      (fun _ w => Kept b candidates fs₀ w.fs ∧ w.fs.manifest = none) (Cut x fun w => Kept b candidates fs₀ w.fs) := by
  unfold decompressSnapshot
  apply Triple.get_bind
  intro w hk
  cases hm : w.fs.manifest with
  | none =>
    refine .pure ?_
    rintro w' rfl
    exact ⟨hk, hm⟩
  | some rs =>
    have hcut : ∀ {P : Work Data Box → Prop}, (∀ w', P w' → Kept b candidates fs₀ w'.fs) → ∀ w', Cut x P w' →
        Cut x (fun w => Kept b candidates fs₀ w.fs) w' := fun hp w' h => ⟨hp w' h.1, h.2⟩
    have hread : Triple (· = w) (perform x.read id) (fun _ => Standing b candidates fs₀ rs fun _ => False)
        (Cut x fun w => Kept b candidates fs₀ w.fs) := by
      refine triple_perform ?_ (fun hne => ?_)
      · rintro w' rfl
        exact ⟨hk, hm, fun _ h => h.elim⟩
      · rintro w' rfl
        refine ⟨hk, ?_⟩
        rintro rfl
        exact hne rfl
    have hrestore := (restoreRecords_triple (b := b) (x := x) (L := fun _ => False) fun r (hr : r ∈ rs) => hr).weaken
      (fun _ h => h) (fun _ _ h => h.home) (hcut fun _ h => h.kept)
    have hdrop := (dropContainers_triple rs).weaken (fun _ h => h)
      (fun _ _ h => h) (hcut fun _ h => h.1)
    have hrmtree := rmtree_triple.weaken (fun _ h => h)
      (fun _ _ h => h) (hcut fun _ h => h.1)
    have hmanifest := (dropManifest_triple hx).weaken (fun _ h => h)
      (fun _ _ h => h) (hcut fun _ h => h.1)
    refine .bind hread fun _ => .bind hrestore fun _ => .bind hdrop fun _ => .bind hrmtree fun _ =>
      .bind hmanifest fun _ => ?_
    refine triple_perform (fun w' h => ⟨h.1.1, h.2⟩) fun hne w' h => ⟨h.1.1, ?_⟩
    rintro rfl
    exact hne rfl

def Safe (b : Binary Data Box) (candidates : List String) (fs₀ fs : Fs Data Box) : Prop :=
  ∀ p ∈ candidates, ∀ j, fs₀.links.get? p = some j →
    (∃ q ∈ candidates, fs₀.links.get? q = some j ∧
      ∃ i, fs.links.get? q = some i ∧ (fs.inodes i).data = (fs₀.inodes j).data) ∨
    ∃ rs, fs.manifest = some rs ∧ ∃ r ∈ rs, p ∈ r.paths ∧
      fs.containers.get? r.container = some (b.compress (fs₀.inodes j).data)

structure Restored (candidates : List String) (fs₀ fs : Fs Data Box) : Prop where
  data : ∀ p ∈ candidates, ∀ j, fs₀.links.get? p = some j →
    ∃ i, fs.links.get? p = some i ∧ (fs.inodes i).data = (fs₀.inodes j).data
  grouping : ∀ p ∈ candidates, ∀ q ∈ candidates, (fs₀.links.get? p).isSome → (fs₀.links.get? q).isSome →
    (fs.links.get? p = fs.links.get? q ↔ fs₀.links.get? p = fs₀.links.get? q)

def compressed (b : Binary Data Box) (candidates : List String) (fs : Fs Data Box) : Fs Data Box :=
  if fs.manifest.isSome then fs else (call (compressSnapshot b candidates {}) fs).2

structure Recovers (b : Binary Data Box) (candidates : List String) (fs₀ fs : Fs Data Box) : Prop where
  compress : fs.manifest = none → ∀ e, (call (compressSnapshot b candidates {}) fs).1 = .error e → e = .nothingOwned
  decompress : (call (decompressSnapshot b {}) (compressed b candidates fs)).1 = .ok ()
  restored : Restored candidates fs₀ (call (decompressSnapshot b {}) (compressed b candidates fs)).2

def Spares (candidates : List String) (fs : Fs Data Box) : Action → Prop
  | .compress x => (fs.manifest.isSome → x.read ≠ .fails) ∧ (fs.manifest = none → x.Spared (ownedGroups candidates fs))
  | .decompress x => x.rmtree = .fails → x.dropManifest ≠ .done

theorem calm_spared (groups : List Group) : ({} : CompressFates).Spared groups := by
  refine ⟨?_, ?_, ?_, ?_, ?_, ?_, ?_, ?_⟩
  · exact fun k _ => ⟨nofun, nofun, nofun⟩
  · exact nofun
  · exact nofun
  · exact nofun
  · exact fun h => absurd h (calm_not_early _)
  · exact fun h => absurd h (calm_not_late _)
  · exact fun g _ => nofun
  · exact fun g _ p _ => rfl

theorem compress_calm (hk : Kept b candidates fs₀ fs) :
    Compressed b candidates fs₀ {} (call (compressSnapshot b candidates {}) fs).1
      (call (compressSnapshot b candidates {}) fs).2 :=
  compressSnapshot_run hk (fun _ => nofun) fun _ => calm_spared _

theorem Kept.next {a : Action} {o : Outcome} (hk : Kept b candidates fs₀ fs) (hs : Spares candidates fs a)
    (hn : next b candidates fs a = some (fs', o)) : Kept b candidates fs₀ fs' := by
  cases a with
  | compress x =>
    obtain ⟨rfl, -⟩ := Prod.mk.inj (Option.some.inj hn)
    exact (compressSnapshot_run hk hs.1 hs.2).kept
  | decompress x =>
    obtain ⟨rfl, -⟩ := Prod.mk.inj (Option.some.inj hn)
    have htriple : Triple (fun w => Kept b candidates fs₀ w.fs) (decompressSnapshot b x) _ _ :=
      decompressSnapshot_triple hs
    have h := htriple ⟨fs, []⟩ hk
    unfold call
    rcases hrun : (decompressSnapshot b x).run ⟨fs, []⟩ with ⟨r, w'⟩
    rw [hrun] at h
    cases r with
    | ok u => exact h.1
    | error e => exact h.1

theorem Kept.safe (hk : Kept b candidates fs₀ fs) : Safe b candidates fs₀ fs := by
  intro p hp j hj
  cases hl : fs.links.get? p with
  | some i =>
    obtain ⟨k, hkp, hdata⟩ := hk.faithful.data p hp i hl
    obtain rfl := Option.some.inj (hj.symm.trans hkp)
    exact .inl ⟨p, hp, hj, i, hl, hdata⟩
  | none =>
    obtain ⟨rs, r, hrs, hr, hpr⟩ := hk.covered p hp (by rw [hj]; rfl) hl
    have hvalid := hk.valid rs hrs r hr
    obtain ⟨k, hkc, hlayer⟩ := hvalid.layer
    obtain rfl := Option.some.inj (hj.symm.trans ((hlayer p hp).mp hpr))
    cases hc : fs.links.get? r.canonical with
    | some i =>
      obtain ⟨k, hkr, hdata⟩ := hk.faithful.data _ hvalid.canonical_mem i hc
      obtain rfl := Option.some.inj (hkc.symm.trans hkr)
      exact .inl ⟨r.canonical, hvalid.canonical_mem, hkc, i, hc, hdata⟩
    | none =>
      obtain ⟨-, k, hkr, hbox⟩ := hk.gone rs hrs r hr hc
      obtain rfl := Option.some.inj (hkc.symm.trans hkr)
      exact .inr ⟨rs, hrs, r, hr, hpr, hbox⟩

theorem Whole.restored (hw : Whole candidates fs₀ fs) (hf : Faithful candidates fs₀ fs) :
    Restored candidates fs₀ fs := by
  refine ⟨?_, ?_⟩
  · intro p hp j hj
    obtain ⟨i, hi⟩ := Option.isSome_iff_exists.mp (hw p hp (by rw [hj]; rfl))
    obtain ⟨k, hkp, hdata⟩ := hf.data p hp i hi
    obtain rfl := Option.some.inj (hj.symm.trans hkp)
    exact ⟨i, hi, hdata⟩
  · intro p hp q hq hhome hhome'
    obtain ⟨i, hi⟩ := Option.isSome_iff_exists.mp (hw p hp hhome)
    obtain ⟨i', hi'⟩ := Option.isSome_iff_exists.mp (hw q hq hhome')
    obtain ⟨j, hj⟩ := Option.isSome_iff_exists.mp hhome
    obtain ⟨j', hj'⟩ := Option.isSome_iff_exists.mp hhome'
    rw [hi, hi', hj, hj', Option.some.injEq, Option.some.injEq]
    exact hf.same p hp q hq i i' j j' hi hi' hj hj'

theorem Kept.recovers (hk : Kept b candidates fs₀ fs) : Recovers b candidates fs₀ fs := by
  have hcalm := compress_calm hk
  have hcompressed : Kept b candidates fs₀ (compressed b candidates fs) := by
    unfold compressed
    split_ifs
    · exact hk
    · exact hcalm.kept
  have htriple : Triple (fun w => Kept b candidates fs₀ w.fs) (decompressSnapshot b {}) _ _ :=
    decompressSnapshot_triple nofun
  have h := htriple ⟨compressed b candidates fs, []⟩ hcompressed
  have hdone : (call (decompressSnapshot b {}) (compressed b candidates fs)).1 = .ok () ∧
      Kept b candidates fs₀ (call (decompressSnapshot b {}) (compressed b candidates fs)).2 ∧
      (call (decompressSnapshot b {}) (compressed b candidates fs)).2.manifest = none := by
    unfold call
    rcases hrun : (decompressSnapshot b {}).run ⟨compressed b candidates fs, []⟩ with ⟨r, w'⟩
    rw [hrun] at h
    cases r with
    | ok u => exact ⟨rfl, h⟩
    | error e => exact absurd rfl h.2
  obtain ⟨hok, hkept, hm⟩ := hdone
  refine ⟨?_, hok, (hkept.whole hm).restored hkept.faithful⟩
  intro _ e he
  rcases hcalm.calm rfl with hret | hret
  · rw [hret] at he
    cases he
  · rw [hret] at he
    exact (Except.error.inj he).symm

/-- In a run in which no action cuts the published removal short, no layer is lost. -/
theorem compression_keeps_layers {fs₀ fs : Fs Data Box} {ls : List (Action × Outcome)} (hstart : Start fs₀)
    (hrun : Run ((system b candidates).restrict fun fs l => Spares candidates fs l.1) fs₀ ls fs) :
    Safe b candidates fs₀ fs ∧ Recovers b candidates fs₀ fs ∧ ∀ x, Spares candidates fs (.compress x) →
      Undone candidates fs₀ (call (compressSnapshot b candidates x) fs).1
      (call (compressSnapshot b candidates x) fs).2 := by
  have hk : Kept b candidates fs₀ fs :=
    hrun.invariant (fun s l t hk h => hk.next h.2 h.1) (kept_start hstart)
  exact ⟨hk.safe, hk.recovers, fun x hx => (compressSnapshot_run hk hx.1 hx.2).undone⟩

def storing : Binary ℕ ℕ := ⟨id, some, fun _ => rfl⟩

def twoLayers : Fs ℕ ℕ where
  links := (PyDict.empty.set "snapshot" 0).set "layers/base" 1
  inodes i := ⟨i, 420⟩
  fresh := 2

theorem twoLayers_start : Start twoLayers := by
  refine ⟨?_, rfl, rfl, rfl⟩
  intro p i hi
  have hmem := PyDict.mem_of_get? hi
  simp only [twoLayers, PyDict.set, PyDict.put, PyDict.empty] at hmem
  grind [twoLayers]

def twoPaths : List String := ["snapshot", "layers/base"]

def stopsBetween : CompressFates where
  unlink p := if p = "layers/base" then .stops else .done

theorem stopsBetween_spares : Spares twoPaths twoLayers (.compress stopsBetween) := by
  refine ⟨nofun, fun _ => ?_⟩
  have hgroups : ownedGroups twoPaths twoLayers = [⟨"snapshot", []⟩, ⟨"layers/base", []⟩] := rfl
  rw [hgroups]
  refine ⟨?_, nofun, nofun, nofun, ?_, ?_, ?_, ?_⟩
  · exact fun k _ => ⟨nofun, nofun, nofun⟩
  · rintro (⟨k, -, h | h | h⟩ | h | h | h) <;> cases h
  · rintro (h | h | h | ⟨g, hg, h⟩)
    · cases h
    · cases h
    · cases h
    · obtain rfl := Option.some.inj hg
      exact absurd h (by decide)
  · intro g hg
    obtain rfl := List.mem_singleton.mp hg
    decide
  · intro g hg p hp
    rcases List.mem_cons.mp hg with rfl | hg
    · cases hp
    · obtain rfl := List.mem_singleton.mp hg
      cases hp

theorem compression_keeps_layers_stopped :
    Start twoLayers ∧
    Safe storing twoPaths twoLayers (call (compressSnapshot storing twoPaths stopsBetween) twoLayers).2 := by
  have hstep : ((system storing twoPaths).restrict fun fs l => Spares twoPaths fs l.1).step twoLayers
      (.compress stopsBetween, (call (compressSnapshot storing twoPaths stopsBetween) twoLayers).1)
      (call (compressSnapshot storing twoPaths stopsBetween) twoLayers).2 := ⟨rfl, stopsBetween_spares⟩
  exact ⟨twoLayers_start, (compression_keeps_layers twoLayers_start (.snoc .nil hstep)).1⟩

def failsBetween : CompressFates where
  unlink p := if p = "layers/base" then .fails else .done

theorem compression_loses_layer :
    ¬∀ (fs : Fs ℕ ℕ) (ls : List (Action × Outcome)), Run (system storing twoPaths) twoLayers ls fs →
      Safe storing twoPaths twoLayers fs ∧ Recovers storing twoPaths twoLayers fs ∧ ∀ x,
        Undone twoPaths twoLayers (call (compressSnapshot storing twoPaths x) fs).1
          (call (compressSnapshot storing twoPaths x) fs).2 := by
  intro h
  have hstep : (system storing twoPaths).step twoLayers
      (.compress failsBetween, (call (compressSnapshot storing twoPaths failsBetween) twoLayers).1)
      (call (compressSnapshot storing twoPaths failsBetween) twoLayers).2 := rfl
  obtain ⟨hsafe, -⟩ := h _ _ (.snoc .nil hstep)
  rcases hsafe "snapshot" (by decide) 0 (by decide) with ⟨q, hq, hhome, i, hi, -⟩ | ⟨rs, hrs, -⟩
  · have hgone : (call (compressSnapshot storing twoPaths failsBetween) twoLayers).2.links.get? "snapshot" = none := by
      decide
    rcases List.mem_cons.mp hq with rfl | hq
    · rw [hgone] at hi
      cases hi
    · obtain rfl := List.mem_singleton.mp hq
      exact absurd hhome (by decide)
  · have hnone : (call (compressSnapshot storing twoPaths failsBetween) twoLayers).2.manifest = none := by decide
    rw [hnone] at hrs
    cases hrs

end ClawBox.Compression
