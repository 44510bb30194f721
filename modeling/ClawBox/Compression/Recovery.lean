import ClawBox.Compression.Snapshot

namespace ClawBox.Compression

open Transition Raising

variable {Data Box : Type} {b : Binary Data Box} {candidates : List String} {fs₀ fs fs' : Fs Data Box}

/-- The layers that are there are those of the first snapshot, and no two of them were joined or split. -/
structure Faithful (candidates : List String) (fs₀ fs : Fs Data Box) : Prop where
  fresh : ∀ p i, fs.links.get? p = some i → i < fs.fresh
  data : ∀ p ∈ candidates, ∀ i, fs.links.get? p = some i →
    ∃ j, fs₀.links.get? p = some j ∧ (fs.inodes i).data = (fs₀.inodes j).data
  same : ∀ p ∈ candidates, ∀ q ∈ candidates, ∀ i i' j j', fs.links.get? p = some i → fs.links.get? q = some i' →
    fs₀.links.get? p = some j → fs₀.links.get? q = some j' → (i = i' ↔ j = j')

def Whole (candidates : List String) (fs₀ fs : Fs Data Box) : Prop :=
  ∀ p ∈ candidates, (fs₀.links.get? p).isSome → (fs.links.get? p).isSome

structure Valid (candidates : List String) (fs₀ : Fs Data Box) (r : Record) : Prop where
  owned : ∀ q ∈ r.paths, q ∈ candidates
  layer : ∃ j, fs₀.links.get? r.canonical = some j ∧ ∀ q ∈ candidates, q ∈ r.paths ↔ fs₀.links.get? q = some j

def Packed (b : Binary Data Box) (fs₀ fs : Fs Data Box) (r : Record) : Prop :=
  ∃ j, fs₀.links.get? r.canonical = some j ∧ fs.containers.get? r.container = some (b.compress (fs₀.inodes j).data)

structure Kept (b : Binary Data Box) (candidates : List String) (fs₀ fs : Fs Data Box) : Prop where
  faithful : Faithful candidates fs₀ fs
  valid : ∀ rs, fs.manifest = some rs → ∀ r ∈ rs, Valid candidates fs₀ r
  unique : ∀ rs, fs.manifest = some rs → ∀ r ∈ rs, ∀ r' ∈ rs, r.canonical ∈ r'.paths → r.canonical = r'.canonical
  -- a layer whose first path is gone is gone altogether, and is in its container
  gone : ∀ rs, fs.manifest = some rs → ∀ r ∈ rs, fs.links.get? r.canonical = none →
    (∀ q ∈ r.paths, fs.links.get? q = none) ∧ Packed b fs₀ fs r
  covered : ∀ p ∈ candidates, (fs₀.links.get? p).isSome → fs.links.get? p = none →
    ∃ rs r, fs.manifest = some rs ∧ r ∈ rs ∧ p ∈ r.paths
  directory : fs.manifest = none → fs.directory = false

theorem Record.canonical_mem (r : Record) : r.canonical ∈ r.paths := List.mem_cons_self

theorem Valid.canonical_mem {r : Record} (h : Valid candidates fs₀ r) : r.canonical ∈ candidates :=
  h.owned _ r.canonical_mem

theorem Faithful.congr (h : Faithful candidates fs₀ fs) (hl : fs'.links = fs.links) (hi : fs'.inodes = fs.inodes)
    (hf : fs'.fresh = fs.fresh) : Faithful candidates fs₀ fs' := by
  refine ⟨?_, ?_, ?_⟩
  · rw [hl, hf]
    exact h.fresh
  · rw [hl, hi]
    exact h.data
  · rw [hl]
    exact h.same

theorem kept_of_whole (h : Faithful candidates fs₀ fs) (hwhole : Whole candidates fs₀ fs)
    (hvalid : ∀ rs, fs.manifest = some rs → ∀ r ∈ rs, Valid candidates fs₀ r)
    (hunique : ∀ rs, fs.manifest = some rs → ∀ r ∈ rs, ∀ r' ∈ rs, r.canonical ∈ r'.paths → r.canonical = r'.canonical)
    (hdir : fs.manifest = none → fs.directory = false) : Kept b candidates fs₀ fs := by
  refine ⟨h, hvalid, hunique, ?_, ?_, hdir⟩
  · intro rs hrs r hr hnone
    obtain ⟨j, hj, -⟩ := (hvalid rs hrs r hr).layer
    have hsome := hwhole _ (hvalid rs hrs r hr).canonical_mem (by rw [hj]; rfl)
    rw [hnone] at hsome
    cases hsome
  · intro p hp hhome hnone
    have hsome := hwhole p hp hhome
    rw [hnone] at hsome
    cases hsome

theorem Kept.whole (h : Kept b candidates fs₀ fs) (hm : fs.manifest = none) : Whole candidates fs₀ fs := by
  intro p hp hhome
  cases hl : fs.links.get? p with
  | some i => rfl
  | none =>
    obtain ⟨rs, r, hrs, -⟩ := h.covered p hp hhome hl
    rw [hm] at hrs
    cases hrs

theorem kept_start (h : Start fs) : Kept b candidates fs fs := by
  obtain ⟨hfresh, hdir, -, hm⟩ := h
  refine kept_of_whole ⟨hfresh, fun p _ i hi => ⟨i, hi, rfl⟩, ?_⟩ (fun _ _ h => h) ?_ ?_ fun _ => hdir
  · intro p _ q _ i i' j j' hi hi' hj hj'
    rw [hi] at hj
    rw [hi'] at hj'
    rw [Option.some.inj hj, Option.some.inj hj']
  · simp [hm]
  · simp [hm]

theorem mem_fromKeys {κ : Type} [DecidableEq κ] {l : List κ} {a : κ} : a ∈ fromKeys l ↔ a ∈ l := by
  have hfold : ∀ d : PySet κ, a ∈ (l.foldl PySet.add d).keys ↔ a ∈ d.keys ∨ a ∈ l := by
    induction l with
    | nil => simp
    | cons x l ih =>
      intro d
      rw [List.foldl_cons, ih, List.mem_cons]
      have hadd : a ∈ (d.add x).keys ↔ a = x ∨ a ∈ d.keys := by
        have hset := PyDict.get?_set d x a ()
        by_cases hax : a = x
        · rw [if_pos hax] at hset
          simp only [hax, true_or, iff_true]
          by_contra hnot
          rw [← hax, PyDict.get?_eq_none.mpr (hax ▸ hnot)] at hset
          cases hset
        · rw [if_neg hax] at hset
          simp only [hax, false_or]
          rw [← not_iff_not, ← PyDict.get?_eq_none, ← PyDict.get?_eq_none]
          exact Eq.congr hset rfl
      rw [hadd]
      tauto
  have hempty : a ∉ (∅ : PySet κ).keys := by simp [PyDict.keys, EmptyCollection.emptyCollection, PyDict.empty]
  rw [fromKeys, hfold]
  tauto

def Group.paths (g : Group) : List String := g.canonical :: g.aliases

theorem groupOf_mem {i : ℕ} {g : Group} (h : groupOf candidates fs i = some g) (q : String) :
    q ∈ g.paths ↔ q ∈ candidates ∧ fs.links.get? q = some i := by
  unfold groupOf at h
  split at h
  · cases h
  · rename_i p ps hp
    split_ifs at h
    obtain rfl := Option.some.inj h
    have hmem : q ∈ fromKeys (candidates.filter fun p => fs.links.get? p = some i) ↔ _ := mem_fromKeys
    rw [hp] at hmem
    simpa [Group.paths] using hmem

theorem ownedGroups_mem {g : Group} (h : g ∈ ownedGroups candidates fs) : ∃ i, groupOf candidates fs i = some g := by
  obtain ⟨i, -, hi⟩ := List.mem_filterMap.mp h
  exact ⟨i, hi⟩

section Compress

variable {x : CompressFates} {w : Work Data Box}

theorem valid_of_group (h : Faithful candidates fs₀ fs) (hwhole : Whole candidates fs₀ fs) {g : Group}
    (hg : g ∈ ownedGroups candidates fs) {r : Record} (hc : r.canonical = g.canonical) (ha : r.aliases = g.aliases) :
    Valid candidates fs₀ r := by
  obtain ⟨i, hi⟩ := ownedGroups_mem hg
  have hpaths : r.paths = g.paths := by rw [Record.paths, hc, ha, Group.paths]
  have hmem := groupOf_mem hi
  obtain ⟨hcand, hlink⟩ := (hmem g.canonical).mp List.mem_cons_self
  obtain ⟨j, hj, -⟩ := h.data _ hcand i hlink
  refine ⟨?_, j, hc ▸ hj, ?_⟩
  · intro q hq
    rw [hpaths] at hq
    exact ((hmem q).mp hq).1
  · intro q hq
    rw [hpaths, hmem q]
    constructor
    · rintro ⟨-, hqi⟩
      obtain ⟨j', hj', -⟩ := h.data q hq i hqi
      rw [hj', (h.same _ hcand q hq i i j j' hlink hqi hj hj').mp rfl]
    · intro hqj
      obtain ⟨i', hi'⟩ := Option.isSome_iff_exists.mp (hwhole q hq (by rw [hqj]; rfl))
      refine ⟨hq, ?_⟩
      rw [hi', (h.same _ hcand q hq i i' j j hlink hi' hj hqj).mpr rfl]

theorem unique_of_groups {g g' : Group} (hg : g ∈ ownedGroups candidates fs) (hg' : g' ∈ ownedGroups candidates fs)
    (h : g.canonical ∈ g'.paths) : g.canonical = g'.canonical := by
  obtain ⟨i, hi⟩ := ownedGroups_mem hg
  obtain ⟨i', hi'⟩ := ownedGroups_mem hg'
  have hlink := ((groupOf_mem hi g.canonical).mp List.mem_cons_self).2
  have hlink' := ((groupOf_mem hi' g.canonical).mp h).2
  rw [hlink] at hlink'
  obtain rfl := Option.some.inj hlink'
  rw [hi] at hi'
  rw [Option.some.inj hi']

structure Ready (b : Binary Data Box) (done : List Group) (k : ℕ) (w : Work Data Box) : Prop where
  groups : w.records.map (fun r => (⟨r.canonical, r.aliases⟩ : Group)) = done
  packed : ∀ r ∈ w.records, r.container < k ∧
    ∃ i, w.fs.links.get? r.canonical = some i ∧
    w.fs.containers.get? r.container = some (b.compress (w.fs.inodes i).data)

structure Aside (fs fs' : Fs Data Box) : Prop where
  links : fs'.links = fs.links
  inodes : fs'.inodes = fs.inodes
  fresh : fs'.fresh = fs.fresh

theorem Aside.refl (fs : Fs Data Box) : Aside fs fs := ⟨rfl, rfl, rfl⟩

theorem Aside.trans {fs'' : Fs Data Box} (h : Aside fs fs') (h' : Aside fs' fs'') : Aside fs fs'' :=
  ⟨h'.links.trans h.links, h'.inodes.trans h.inodes, h'.fresh.trans h.fresh⟩

theorem Aside.faithful (h : Aside fs fs') (hf : Faithful candidates fs₀ fs) : Faithful candidates fs₀ fs' :=
  hf.congr h.links h.inodes h.fresh

theorem Aside.whole (h : Aside fs fs') (hw : Whole candidates fs₀ fs) : Whole candidates fs₀ fs' := by
  intro p hp hhome
  rw [h.links]
  exact hw p hp hhome

theorem perform_done {f : Fate} (hf : f = .done) (g : Fs Data Box → Fs Data Box) (w : Work Data Box) :
    (perform f g).run w = (.ok (), { w with fs := g w.fs }) := by
  rw [hf]
  rfl

theorem perform_pass {f : Fate} (hf : f = .done) (k : Unit → Io Data Box Unit) (w : Work Data Box) :
    (perform f id >>= k).run w = (k ()).run w := by
  rw [hf]
  rfl

theorem perform_fails {f : Fate} (hf : f = .fails) (g : Fs Data Box → Fs Data Box) (w : Work Data Box) :
    (perform f g).run w = (.error .os, w) := by
  rw [hf]
  rfl

theorem perform_stops {f : Fate} (hf : f = .stops) (g : Fs Data Box → Fs Data Box) (w : Work Data Box) :
    (perform f g).run w = (.error .stop, w) := by
  rw [hf]
  rfl

theorem Fate.done_or_fails {f : Fate} (h : f ≠ .stops) : f = .done ∨ f = .fails := by
  cases f with
  | done => exact .inl rfl
  | fails => exact .inr rfl
  | stops => exact absurd rfl h

theorem Fate.done_or_stops {f : Fate} (h : f ≠ .fails) : f = .done ∨ f = .stops := by
  cases f with
  | done => exact .inl rfl
  | fails => exact absurd rfl h
  | stops => exact .inr rfl

def CompressFates.Runs (x : CompressFates) (k : ℕ) : Prop :=
  x.pack k ≠ .stops ∧ x.place k ≠ .stops ∧ x.stat k ≠ .stops

def CompressFates.FailsAt (x : CompressFates) (k : ℕ) : Prop :=
  x.pack k = .fails ∨ x.place k = .fails ∨ x.stat k = .fails

def Fs.place (fs : Fs Data Box) (k : ℕ) (box : Box) : Fs Data Box := { fs with containers := fs.containers.set k box }

theorem Aside.place (fs : Fs Data Box) (k : ℕ) (box : Box) : Aside fs (fs.place k box) := ⟨rfl, rfl, rfl⟩

theorem packGroups_cons (b : Binary Data Box) (x : CompressFates) (k : ℕ) (g : Group) (gs : List Group) {i : ℕ}
    (hi : w.fs.links.get? g.canonical = some i) (hruns : x.Runs k) :
    (∃ fs', Aside w.fs fs' ∧ fs'.manifest = w.fs.manifest ∧ x.FailsAt k ∧
        (packGroups b x k (g :: gs)).run w = (.error .os, { w with fs := fs' })) ∨
      (packGroups b x k (g :: gs)).run w = (packGroups b x (k + 1) gs).run
        ⟨w.fs.place k (b.compress (w.fs.inodes i).data),
          w.records ++ [⟨g.canonical, g.aliases, (w.fs.inodes i).mode, k⟩]⟩ := by
  obtain ⟨hpack, hplace, hstat⟩ := hruns
  rw [packGroups, run_get_bind, hi]
  simp only
  rcases Fate.done_or_fails hpack with hf | hf
  · rw [run_bind_ok (perform_done hf _ _)]
    rcases Fate.done_or_fails hplace with hf | hf
    · rw [run_bind_ok (perform_done hf _ _)]
      rcases Fate.done_or_fails hstat with hf | hf
      · rw [run_bind_ok (perform_done hf _ _), run_modify_bind]
        exact .inr rfl
      · refine .inl ⟨w.fs.place k (b.compress (w.fs.inodes i).data), .place _ _ _, rfl, .inr (.inr hf), ?_⟩
        rw [run_bind_error (perform_fails hf _ _)]
        rfl
    · exact .inl ⟨w.fs, .refl _, rfl, .inr (.inl hf), run_bind_error (perform_fails hf _ _) _⟩
  · exact .inl ⟨w.fs, .refl _, rfl, .inl hf, run_bind_error (perform_fails hf _ _) _⟩

theorem packGroups_run {gs done : List Group} {k : ℕ} (hready : Ready b done k w)
    (hthere : ∀ g ∈ gs, (w.fs.links.get? g.canonical).isSome) (hruns : ∀ m, k ≤ m → m < k + gs.length → x.Runs m) :
    ∃ w', Aside w.fs w'.fs ∧ w'.fs.manifest = w.fs.manifest ∧
      ((packGroups b x k gs).run w = (.ok (), w') ∧ Ready b (done ++ gs) (k + gs.length) w' ∨
        (packGroups b x k gs).run w = (.error .os, w') ∧ (∀ r ∈ w'.records, r.container < k + gs.length) ∧
          ∃ m, k ≤ m ∧ m < k + gs.length ∧ x.FailsAt m) := by
  induction gs generalizing k done w with
  | nil => exact ⟨w, .refl _, rfl, .inl ⟨rfl, by simpa using hready⟩⟩
  | cons g gs ih =>
    obtain ⟨i, hi⟩ := Option.isSome_iff_exists.mp (hthere g List.mem_cons_self)
    have hlen : k + (g :: gs).length = k + 1 + gs.length := by
      rw [List.length_cons]
      omega
    rw [hlen] at hruns ⊢
    rcases packGroups_cons b x k g gs hi (hruns k le_rfl (by omega)) with ⟨fs', haside, hm, hfails, hrun⟩ | hrun
    · refine ⟨_, haside, hm, .inr ⟨hrun, ?_, k, le_rfl, by omega, hfails⟩⟩
      intro r hr
      have := (hready.packed r hr).1
      omega
    · rw [hrun]
      have hready' : Ready b (done ++ [g]) (k + 1)
          ⟨w.fs.place k (b.compress (w.fs.inodes i).data),
            w.records ++ [⟨g.canonical, g.aliases, (w.fs.inodes i).mode, k⟩]⟩ := by
        refine ⟨by simp [hready.groups], ?_⟩
        intro r hr
        rcases List.mem_append.mp hr with hr | hr
        · obtain ⟨hlt, j, hj, hbox⟩ := hready.packed r hr
          refine ⟨by omega, j, hj, ?_⟩
          rw [Fs.place, PyDict.get?_set_ne _ _ (by omega), hbox]
        · rw [List.mem_singleton.mp hr]
          exact ⟨by simp, i, hi, PyDict.get?_set_self _ _ _⟩
      obtain ⟨w', haside, hm, hrest⟩ :=
        ih hready' (fun g' hg' => hthere g' (List.mem_cons_of_mem _ hg')) fun m hm hlt =>
        hruns m (by omega) hlt
      refine ⟨w', (Aside.place _ _ _).trans haside, hm, ?_⟩
      rcases hrest with ⟨hrun', hready''⟩ | ⟨hrun', hcontainers, m, hm, hlt, hfails⟩
      · rw [List.append_assoc] at hready''
        exact .inl ⟨hrun', hready''⟩
      · exact .inr ⟨hrun', hcontainers, m, by omega, hlt, hfails⟩

theorem dropContainers_run (f : ℕ → Fate) (rs : List Record) (h : ∀ r ∈ rs, f r.container ≠ .fails)
    (w : Work Data Box) :
    ∃ fs', Aside w.fs fs' ∧ fs'.manifest = w.fs.manifest ∧ fs'.directory = w.fs.directory ∧
      ((dropContainers f rs).run w = (.ok (), { w with fs := fs' }) ∨
        (dropContainers f rs).run w = (.error .stop, { w with fs := fs' }) ∧ ∃ r ∈ rs, f r.container = .stops) := by
  induction rs generalizing w with
  | nil => exact ⟨w.fs, .refl _, rfl, rfl, .inl rfl⟩
  | cons r rs ih =>
    rw [dropContainers]
    rcases Fate.done_or_stops (h r List.mem_cons_self) with hf | hf
    · rw [run_bind_ok (perform_done hf _ _)]
      obtain ⟨fs', haside, hm, hdir, hrest⟩ := ih (fun r' hr' => h r' (List.mem_cons_of_mem _ hr'))
        { w with fs := { w.fs with containers := w.fs.containers.pop r.container } }
      refine ⟨fs', ⟨haside.links, haside.inodes, haside.fresh⟩, hm, hdir, ?_⟩
      rcases hrest with hrun | ⟨hrun, r', hr', hstops⟩
      · exact .inl hrun
      · exact .inr ⟨hrun, r', List.mem_cons_of_mem _ hr', hstops⟩
    · exact ⟨w.fs, .refl _, rfl, rfl, .inr ⟨run_bind_error (perform_stops hf _ _) _, r, List.mem_cons_self, hf⟩⟩

theorem dropManifest_run (f : Fate) (w : Work Data Box) :
    f = .done ∧ (dropManifest f).run w = (.ok (), { w with fs := { w.fs with manifest := none } }) ∨
      f ≠ .done ∧ ∃ e, (dropManifest f).run w = (.error e, w) ∧ (e = .stop ∨ f = .fails) := by
  cases f with
  | done => exact .inl ⟨rfl, rfl⟩
  | fails => exact .inr ⟨by decide, .os, rfl, .inr rfl⟩
  | stops => exact .inr ⟨by decide, .stop, rfl, .inl rfl⟩

theorem rmtree_run {f : Fate} (h : f ≠ .fails) (w : Work Data Box) :
    f = .done ∧ (rmtree f).run w = (.ok (), { w with fs := { w.fs with directory := false, containers := ∅ } }) ∨
      f = .stops ∧ (rmtree f).run w = (.error .stop, w) := by
  rcases Fate.done_or_stops h with rfl | rfl
  · exact .inl ⟨rfl, rfl⟩
  · exact .inr ⟨rfl, rfl⟩

def Ends (x : Io Data Box Unit) (w : Work Data Box) (R : Outcome → Fs Data Box → Prop) : Prop :=
  R (x.run w).1 (x.run w).2.fs

theorem Ends.of_run {y : Io Data Box Unit} {R : Outcome → Fs Data Box → Prop} (o : Outcome) (w' : Work Data Box)
    (h : y.run w = (o, w')) (hr : R o w'.fs) : Ends y w R := by
  rw [Ends, h]
  exact hr

def Undone (candidates : List String) (fs₀ : Fs Data Box) (o : Outcome) (fs : Fs Data Box) : Prop :=
  ∀ e, o = .error e → e ≠ .stop → fs.manifest = none ∧ Whole candidates fs₀ fs

structure CompressFates.UndoesEarly (x : CompressFates) (n : ℕ) : Prop where
  containers : ∀ k < n, x.dropContainer k = .done
  rmtree : x.rmtree = .done

structure CompressFates.UndoesLate (x : CompressFates) (n : ℕ) : Prop where
  containers : ∀ k < n, x.dropContainer k ≠ .fails
  rmtree : x.rmtree ≠ .fails
  manifest : x.dropManifest ≠ .fails

theorem undo_early {n : ℕ} (hx : x.UndoesEarly n) (hf : Faithful candidates fs₀ w.fs) (hw : Whole candidates fs₀ w.fs)
    (hm : w.fs.manifest = none) (hrecords : ∀ r ∈ w.records, r.container < n) (e : Fault) (he : e ≠ .stop) :
    Ends (undo x e) w fun o fs' => Kept b candidates fs₀ fs' ∧ Undone candidates fs₀ o fs' := by
  rw [undo, if_neg he]
  obtain ⟨fs', haside, hm', -, hrun | ⟨-, r, hr, hstops⟩⟩ := dropContainers_run x.dropContainer w.records
    (fun r hr => by rw [hx.containers _ (hrecords r hr)]; decide) w
  · have hend : ∀ o fs'', Aside fs' fs'' → fs''.manifest = none → fs''.directory = false →
        Kept b candidates fs₀ fs'' ∧ Undone candidates fs₀ o fs'' := by
      intro o fs'' haside' hnone hdir
      have hw' := haside'.whole (haside.whole hw)
      refine ⟨kept_of_whole (haside'.faithful (haside.faithful hf)) hw' ?_ ?_ fun _ => hdir, fun _ _ _ => ⟨hnone, hw'⟩⟩
      · simp [hnone]
      · simp [hnone]
    rcases rmtree_run (f := x.rmtree) (by rw [hx.rmtree]; decide) { w with fs := fs' } with ⟨-, htree⟩ | ⟨hstops, -⟩
    · rcases dropManifest_run x.dropManifest { w with fs := { fs' with directory := false, containers := ∅ } } with
        ⟨-, hdrop⟩ | ⟨-, e', hdrop, -⟩
      · refine Ends.of_run (.error e) ⟨{ fs' with directory := false, containers := ∅, manifest := none }, w.records⟩ ?_
          (hend _ _ ⟨rfl, rfl, rfl⟩ rfl rfl)
        rw [run_get_bind, run_bind_ok hrun, run_bind_ok htree, run_bind_ok hdrop]
        rfl
      · refine Ends.of_run (.error e') ⟨{ fs' with directory := false, containers := ∅ }, w.records⟩ ?_
          (hend _ _ ⟨rfl, rfl, rfl⟩ (hm'.trans hm) rfl)
        rw [run_get_bind, run_bind_ok hrun, run_bind_ok htree, run_bind_error hdrop]
    · rw [hx.rmtree] at hstops
      cases hstops
  · rw [hx.containers _ (hrecords r hr)] at hstops
    cases hstops

theorem Kept.cleanup (hk : Kept b candidates fs₀ fs) (hw : Whole candidates fs₀ fs) (haside : Aside fs fs')
    (hend : fs'.manifest = fs.manifest ∧ (fs'.directory = fs.directory ∨ fs'.directory = false) ∨
      fs'.manifest = none ∧ fs'.directory = false) : Kept b candidates fs₀ fs' := by
  have hkept := kept_of_whole (b := b) (haside.faithful hk.faithful) (haside.whole hw)
  rcases hend with ⟨hm, hdir⟩ | ⟨hm, hdir⟩
  · rw [hm] at hkept
    refine hkept hk.valid hk.unique fun hnone => ?_
    rcases hdir with hdir | hdir
    · rw [hdir, hk.directory hnone]
    · exact hdir
  · rw [hm] at hkept
    exact hkept (by simp) (by simp) fun _ => hdir

theorem undo_late {n : ℕ} (hx : x.UndoesLate n) (hk : Kept b candidates fs₀ w.fs) (hw : Whole candidates fs₀ w.fs)
    (hrecords : ∀ r ∈ w.records, r.container < n) (e : Fault) (he : e ≠ .stop) :
    Ends (undo x e) w fun o fs' => Kept b candidates fs₀ fs' ∧ Undone candidates fs₀ o fs' := by
  have hstop : ∀ fs', Aside w.fs fs' → fs'.manifest = w.fs.manifest →
      (fs'.directory = w.fs.directory ∨ fs'.directory = false) →
      Kept b candidates fs₀ fs' ∧ Undone candidates fs₀ (.error .stop) fs' := by
    intro fs' haside hm hdir
    exact ⟨hk.cleanup hw haside (.inl ⟨hm, hdir⟩), fun e' h hne => absurd (Except.error.inj h).symm hne⟩
  rw [undo, if_neg he]
  obtain ⟨fs', haside, hm', hdir', hrun | ⟨hrun, -⟩⟩ := dropContainers_run x.dropContainer w.records
    (fun r hr => hx.containers _ (hrecords r hr)) w
  · rcases rmtree_run hx.rmtree { w with fs := fs' } with ⟨-, htree⟩ | ⟨-, htree⟩
    · rcases dropManifest_run x.dropManifest { w with fs := { fs' with directory := false, containers := ∅ } } with
        ⟨-, hdrop⟩ | ⟨-, e', hdrop, rfl | hfails⟩
      · refine Ends.of_run (.error e) ⟨{ fs' with directory := false, containers := ∅, manifest := none }, w.records⟩ ?_
          ⟨hk.cleanup hw ⟨haside.links, haside.inodes, haside.fresh⟩ (.inr ⟨rfl, rfl⟩),
            fun _ _ _ => ⟨rfl, haside.whole hw⟩⟩
        rw [run_get_bind, run_bind_ok hrun, run_bind_ok htree, run_bind_ok hdrop]
        rfl
      · refine Ends.of_run (.error .stop) ⟨{ fs' with directory := false, containers := ∅ }, w.records⟩ ?_
          (hstop _ ⟨haside.links, haside.inodes, haside.fresh⟩ hm' (.inr rfl))
        rw [run_get_bind, run_bind_ok hrun, run_bind_ok htree, run_bind_error hdrop]
      · exact absurd hfails hx.manifest
    · refine Ends.of_run (.error .stop) { w with fs := fs' } ?_ (hstop _ haside hm' (.inl hdir'))
      rw [run_get_bind, run_bind_ok hrun, run_bind_error htree]
  · refine Ends.of_run (.error .stop) { w with fs := fs' } ?_ (hstop _ haside hm' (.inl hdir'))
    rw [run_get_bind, run_bind_error hrun]

def Fs.drop (fs : Fs Data Box) (ps : List String) : Fs Data Box := { fs with links := ps.foldl PyDict.pop fs.links }

theorem get?_foldl_pop (ps : List String) (d : PyDict String ℕ) (q : String) :
    (ps.foldl PyDict.pop d).get? q = if q ∈ ps then none else d.get? q := by
  induction ps generalizing d with
  | nil => simp
  | cons p ps ih =>
    rw [List.foldl_cons, ih, PyDict.get?_pop]
    simp only [List.mem_cons]
    split_ifs <;> tauto

theorem Fs.get?_drop (fs : Fs Data Box) (ps : List String) (q : String) :
    (fs.drop ps).links.get? q = if q ∈ ps then none else fs.links.get? q :=
  get?_foldl_pop ps fs.links q

theorem unlinkPaths_run {ps : List String} (h : ∀ p ∈ ps, x.unlink p = .done) (w : Work Data Box) :
    (unlinkPaths x ps).run w = (.ok (), { w with fs := w.fs.drop ps }) := by
  induction ps generalizing w with
  | nil => rfl
  | cons p ps ih =>
    rw [unlinkPaths, run_bind_ok (perform_done (h p List.mem_cons_self) _ _),
      ih fun q hq => h q (List.mem_cons_of_mem _ hq)]
    rfl

theorem Faithful.drop (h : Faithful candidates fs₀ fs) (ps : List String) : Faithful candidates fs₀ (fs.drop ps) := by
  have hsub : ∀ {p i}, (fs.drop ps).links.get? p = some i → fs.links.get? p = some i := by
    intro p i hi
    rw [Fs.get?_drop] at hi
    split_ifs at hi
    exact hi
  exact ⟨fun p i hi => h.fresh p i (hsub hi), fun p hp i hi => h.data p hp i (hsub hi),
    fun p hp q hq i i' j j' hi hi' => h.same p hp q hq i i' j j' (hsub hi) (hsub hi')⟩

theorem Valid.paths_eq {r r' : Record} (h : Valid candidates fs₀ r) (h' : Valid candidates fs₀ r')
    (hc : r.canonical = r'.canonical) {q : String} (hq : q ∈ r.paths) : q ∈ r'.paths := by
  obtain ⟨j, hj, hmem⟩ := h.layer
  obtain ⟨j', hj', hmem'⟩ := h'.layer
  rw [← hc, hj] at hj'
  obtain rfl := Option.some.inj hj'
  have hcand := h.owned q hq
  exact (hmem' q hcand).mpr ((hmem q hcand).mp hq)

theorem Kept.remove {rs : List Record} (hk : Kept b candidates fs₀ fs) (hm : fs.manifest = some rs)
    (hpacked : ∀ r ∈ rs, Packed b fs₀ fs r) {r : Record} (hr : r ∈ rs) : Kept b candidates fs₀ (fs.drop r.paths) := by
  have hrs : ∀ rs', (fs.drop r.paths).manifest = some rs' → rs' = rs := by
    intro rs' h
    exact Option.some.inj (h.symm.trans hm)
  refine ⟨hk.faithful.drop _, ?_, ?_, ?_, ?_, hk.directory⟩
  · intro rs' h
    rw [hrs rs' h]
    exact hk.valid rs hm
  · intro rs' h
    rw [hrs rs' h]
    exact hk.unique rs hm
  · intro rs' h r' hr' hnone
    rw [hrs rs' h] at hr'
    refine ⟨?_, hpacked r' hr'⟩
    intro q hq
    rw [Fs.get?_drop] at hnone ⊢
    split_ifs at hnone with hmem
    · have hc := hk.unique rs hm r' hr' r hr hmem
      rw [if_pos ((hk.valid rs hm r' hr').paths_eq (hk.valid rs hm r hr) hc hq)]
    · rw [(hk.gone rs hm r' hr' hnone).1 q hq, ite_self]
  · intro p hp hhome hnone
    rw [Fs.get?_drop] at hnone
    split_ifs at hnone with hmem
    · exact ⟨rs, r, hm, hr, hmem⟩
    · exact hk.covered p hp hhome hnone

theorem unlinkRecords_run (rs : List Record) {all : List Record} (hk : Kept b candidates fs₀ w.fs)
    (hm : w.fs.manifest = some all) (hpacked : ∀ r ∈ all, Packed b fs₀ w.fs r) (hrs : ∀ r ∈ rs, r ∈ all)
    (hcanonical : ∀ r ∈ rs, x.unlink r.canonical ≠ .fails) (haliases : ∀ r ∈ rs, ∀ p ∈ r.aliases, x.unlink p = .done) :
    ∃ fs', Kept b candidates fs₀ fs' ∧
      ((unlinkRecords x rs).run w = (.ok (), { w with fs := fs' }) ∨
        x ≠ {} ∧ (unlinkRecords x rs).run w = (.error .stop, { w with fs := fs' })) := by
  induction rs generalizing w with
  | nil => exact ⟨w.fs, hk, .inl rfl⟩
  | cons r rs ih =>
    rw [unlinkRecords]
    rcases Fate.done_or_stops (hcanonical r List.mem_cons_self) with hf | hf
    · have hpaths : ∀ p ∈ r.paths, x.unlink p = .done := by
        intro p hp
        rcases List.mem_cons.mp hp with rfl | hp
        · exact hf
        · exact haliases r List.mem_cons_self p hp
      rw [run_bind_ok (unlinkPaths_run hpaths w)]
      exact ih (w := { w with fs := w.fs.drop r.paths }) (hk.remove hm hpacked (hrs r List.mem_cons_self)) hm hpacked
        (fun r' hr' => hrs r' (List.mem_cons_of_mem _ hr')) (fun r' hr' => hcanonical r' (List.mem_cons_of_mem _ hr'))
        fun r' hr' => haliases r' (List.mem_cons_of_mem _ hr')
    · refine ⟨w.fs, hk, .inr ⟨?_, ?_⟩⟩
      · rintro rfl
        cases hf
      · rw [Record.paths, unlinkPaths, run_bind, run_bind_error (perform_stops hf _ _)]


theorem writeManifest_run (f g : Fate) (w : Work Data Box) :
    (writeManifest f g).run w = (.ok (), { w with fs := { w.fs with manifest := some w.records } }) ∨
      (f = .fails ∨ g = .fails) ∧ (writeManifest f g).run w = (.error .os, w) ∨
      (f = .stops ∨ g = .stops) ∧ (writeManifest f g).run w = (.error .stop, w) := by
  cases f with
  | done =>
    cases g with
    | done => exact .inl rfl
    | fails => exact .inr (.inl ⟨.inr rfl, rfl⟩)
    | stops => exact .inr (.inr ⟨.inr rfl, rfl⟩)
  | fails => exact .inr (.inl ⟨.inl rfl, rfl⟩)
  | stops => exact .inr (.inr ⟨.inl rfl, rfl⟩)

def CompressFates.FailsEarly (x : CompressFates) (n : ℕ) : Prop :=
  (∃ k < n, x.FailsAt k) ∨ x.sizes = .fails ∨ x.write = .fails ∨ x.replace = .fails

def CompressFates.FailsLate (x : CompressFates) (groups : List Group) : Prop :=
  x.size = .fails ∨ x.rewrite = .fails ∨ x.replaceAgain = .fails ∨ ∃ g ∈ groups.head?, x.unlink g.canonical = .fails

/-- No stop between `mkdir` and the manifest, or in the loops over the paths of one layer; no failure once the first
path is unlinked; and the handler does its work. -/
structure CompressFates.Spared (x : CompressFates) (groups : List Group) : Prop where
  runs : ∀ k < groups.length, x.Runs k
  sizes : x.sizes ≠ .stops
  write : x.write ≠ .stops
  replace : x.replace ≠ .stops
  early : x.FailsEarly groups.length → x.UndoesEarly groups.length
  late : x.FailsLate groups → x.UndoesLate groups.length
  canonicals : ∀ g ∈ groups.tail, x.unlink g.canonical ≠ .fails
  aliases : ∀ g ∈ groups, ∀ p ∈ g.aliases, x.unlink p = .done

inductive Ended (b : Binary Data Box) (candidates : List String) (fs₀ : Fs Data Box) (x : CompressFates)
    (groups : List Group) : Outcome → Fs Data Box → Prop
  | early {fs : Fs Data Box} (hf : Faithful candidates fs₀ fs) (hw : Whole candidates fs₀ fs) (hm : fs.manifest = none)
      (hfails : x.FailsEarly groups.length) : Ended b candidates fs₀ x groups (.error .os) fs
  | late {fs : Fs Data Box} (hk : Kept b candidates fs₀ fs) (hw : Whole candidates fs₀ fs)
      (hfails : x.FailsLate groups) : Ended b candidates fs₀ x groups (.error .os) fs
  | stopped {fs : Fs Data Box} (hk : Kept b candidates fs₀ fs) (hx : x ≠ {}) : Ended b candidates fs₀ x groups
    (.error .stop) fs
  | returned {fs : Fs Data Box} (hk : Kept b candidates fs₀ fs) : Ended b candidates fs₀ x groups (.ok ()) fs

theorem Ready.packed_of {done : List Group} {k : ℕ} (h : Ready b done k w) (hf : Faithful candidates fs₀ w.fs)
    (hvalid : ∀ r ∈ w.records, Valid candidates fs₀ r) {r : Record} (hr : r ∈ w.records) : Packed b fs₀ w.fs r := by
  obtain ⟨-, i, hi, hbox⟩ := h.packed r hr
  obtain ⟨j, hj, hdata⟩ := hf.data _ (hvalid r hr).canonical_mem i hi
  exact ⟨j, hj, hbox.trans (by rw [hdata])⟩

theorem kept_publish {groups : List Group} {k : ℕ} (h : Ready b groups k w) (hf : Faithful candidates fs₀ w.fs)
    (hw : Whole candidates fs₀ w.fs) (hgroups : groups = ownedGroups candidates w.fs) :
    (∀ r ∈ w.records, Packed b fs₀ w.fs r) ∧ Kept b candidates fs₀ { w.fs with manifest := some w.records } := by
  have hgroup : ∀ r ∈ w.records, (⟨r.canonical, r.aliases⟩ : Group) ∈ ownedGroups candidates w.fs := by
    intro r hr
    rw [← hgroups, ← h.groups]
    exact List.mem_map_of_mem hr
  have hvalid : ∀ r ∈ w.records, Valid candidates fs₀ r := fun r hr => valid_of_group hf hw (hgroup r hr) rfl rfl
  refine ⟨fun r hr => h.packed_of hf hvalid hr, ?_⟩
  have haside : Aside w.fs { w.fs with manifest := some w.records } := ⟨rfl, rfl, rfl⟩
  refine kept_of_whole (haside.faithful hf) (haside.whole hw) ?_ ?_ ?_
  · rintro rs ⟨⟩
    exact hvalid
  · rintro rs ⟨⟩ r hr r' hr' hmem
    exact unique_of_groups (hgroup r hr) (hgroup r' hr') hmem
  · rintro ⟨⟩

theorem removal_run {groups : List Group} {rs : List Record} (hx : x.Spared groups) (hk : Kept b candidates fs₀ w.fs)
    (hw : Whole candidates fs₀ w.fs) (hm : w.fs.manifest = some rs) (hpacked : ∀ r ∈ rs, Packed b fs₀ w.fs r)
    (hrs : rs.map (fun r => (⟨r.canonical, r.aliases⟩ : Group)) = groups) :
    ∃ o fs', (unlinkRecords x rs).run w = (o, { w with fs := fs' }) ∧ Ended b candidates fs₀ x groups o fs' := by
  cases rs with
  | nil => exact ⟨.ok (), w.fs, rfl, .returned hk⟩
  | cons r rs =>
    rw [List.map_cons] at hrs
    subst hrs
    have haliases : ∀ r' ∈ r :: rs, ∀ p ∈ r'.aliases, x.unlink p = .done := fun r' hr' =>
      hx.aliases ⟨r'.canonical, r'.aliases⟩ (by
        rw [← List.map_cons (f := fun r : Record => (⟨r.canonical, r.aliases⟩ : Group))]
        exact List.mem_map_of_mem hr')
    have htail : ∀ r' ∈ rs, x.unlink r'.canonical ≠ .fails := fun r' hr' =>
      hx.canonicals ⟨r'.canonical, r'.aliases⟩ (List.mem_map_of_mem hr')
    by_cases hfails : x.unlink r.canonical = .fails
    · refine ⟨.error .os, w.fs, ?_, .late hk hw (.inr (.inr (.inr ⟨_, rfl, hfails⟩)))⟩
      rw [unlinkRecords, Record.paths, unlinkPaths, run_bind, run_bind_error (perform_fails hfails _ _)]
    · obtain ⟨fs', hk', hrun | ⟨hne, hrun⟩⟩ := unlinkRecords_run (r :: rs) hk hm hpacked (fun _ h => h) (by
        intro r' hr'
        rcases List.mem_cons.mp hr' with rfl | hr'
        · exact hfails
        · exact htail r' hr') haliases
      · exact ⟨.ok (), fs', hrun, .returned hk'⟩
      · exact ⟨.error .stop, fs', hrun, .stopped hk' hne⟩

theorem committed_run {groups : List Group} (hx : x.Spared groups) (hk : Kept b candidates fs₀ w.fs)
    (hw : Whole candidates fs₀ w.fs) (hm : w.fs.manifest = some w.records)
    (hpacked : ∀ r ∈ w.records, Packed b fs₀ w.fs r)
    (hrs : w.records.map (fun r => (⟨r.canonical, r.aliases⟩ : Group)) = groups) :
    ∃ o fs', (do
        perform x.size id
        writeManifest x.rewrite x.replaceAgain
        let w ← get
        unlinkRecords x w.records : Io Data Box Unit).run w = (o, { w with fs := fs' }) ∧
      Ended b candidates fs₀ x groups o fs' := by
  have hsame : { w with fs := { w.fs with manifest := some w.records } } = w := by rw [← hm]
  cases hsize : x.size with
  | done =>
    rw [perform_pass rfl]
    rcases writeManifest_run x.rewrite x.replaceAgain w with hrun | ⟨hfails, hrun⟩ | ⟨hstops, hrun⟩
    · rw [hsame] at hrun
      obtain ⟨o, fs', hrest, hended⟩ := removal_run hx hk hw hm hpacked hrs
      refine ⟨o, fs', ?_, hended⟩
      rw [run_bind_ok hrun, run_get_bind]
      exact hrest
    · refine ⟨_, w.fs, run_bind_error hrun _, .late hk hw (.inr ?_)⟩
      rcases hfails with hfails | hfails
      · exact .inl hfails
      · exact .inr (.inl hfails)
    · refine ⟨_, w.fs, run_bind_error hrun _, .stopped hk ?_⟩
      rintro rfl
      rcases hstops with hstops | hstops <;> cases hstops
  | fails => exact ⟨_, w.fs, run_bind_error (perform_fails rfl _ _) _, .late hk hw (.inl hsize)⟩
  | stops =>
    refine ⟨_, w.fs, run_bind_error (perform_stops rfl _ _) _, .stopped hk ?_⟩
    rintro rfl
    cases hsize

theorem compressBody_run {groups : List Group} (hx : x.Spared groups) (hf : Faithful candidates fs₀ w.fs)
    (hw : Whole candidates fs₀ w.fs) (hm : w.fs.manifest = none) (hrecords : w.records = [])
    (hgroups : groups = ownedGroups candidates w.fs) :
    ∃ o w', (compressBody b x groups).run w = (o, w') ∧ (∀ r ∈ w'.records, r.container < groups.length) ∧
      Ended b candidates fs₀ x groups o w'.fs := by
  have hthere : ∀ g ∈ groups, (w.fs.links.get? g.canonical).isSome := by
    intro g hg
    rw [hgroups] at hg
    obtain ⟨i, hi⟩ := ownedGroups_mem hg
    rw [((groupOf_mem hi g.canonical).mp List.mem_cons_self).2]
    rfl
  have hready : Ready b [] 0 w := ⟨by rw [hrecords]; rfl, by simp [hrecords]⟩
  obtain ⟨w₁, haside, hm₁, hrest⟩ := packGroups_run (x := x) hready hthere fun m _ hlt => hx.runs m (by omega)
  have hf₁ := haside.faithful hf
  have hw₁ := haside.whole hw
  rw [hm] at hm₁
  rcases hrest with ⟨hrun, hready₁⟩ | ⟨hrun, hcontainers, m, -, hlt, hfails⟩
  · rw [List.nil_append, Nat.zero_add] at hready₁
    have hcontainers : ∀ r ∈ w₁.records, r.container < groups.length := fun r hr => (hready₁.packed r hr).1
    rw [compressBody, run_bind_ok hrun]
    rcases Fate.done_or_fails hx.sizes with hsizes | hsizes
    · rw [perform_pass hsizes]
      rcases writeManifest_run x.write x.replace w₁ with hrun | ⟨hfails, hrun⟩ | ⟨hstops, -⟩
      · obtain ⟨hpacked, hk⟩ := kept_publish hready₁ hf₁ hw₁ (by
          rw [hgroups, ownedGroups, ownedGroups]
          unfold groupOf nlink
          rw [haside.links])
        rw [run_bind_ok hrun]
        obtain ⟨o, fs', hrest, hended⟩ := committed_run (w := ⟨{ w₁.fs with manifest := some w₁.records }, w₁.records⟩)
          hx hk
          hw₁ rfl hpacked hready₁.groups
        exact ⟨o, _, hrest, hcontainers, hended⟩
      · exact ⟨_, w₁, run_bind_error hrun _, hcontainers, .early hf₁ hw₁ hm₁ (.inr (.inr hfails))⟩
      · exact absurd hstops (not_or.mpr ⟨hx.write, hx.replace⟩)
    · exact ⟨_, w₁, run_bind_error (perform_fails hsizes _ _) _, hcontainers, .early hf₁ hw₁ hm₁ (.inr (.inl hsizes))⟩
  · refine ⟨_, w₁, ?_, ?_, .early hf₁ hw₁ hm₁ (.inl ⟨m, by omega, hfails⟩)⟩
    · rw [compressBody, run_bind_error hrun]
    · intro r hr
      have := hcontainers r hr
      omega

structure Compressed (b : Binary Data Box) (candidates : List String) (fs₀ : Fs Data Box) (x : CompressFates)
    (o : Outcome) (fs : Fs Data Box) : Prop where
  kept : Kept b candidates fs₀ fs
  undone : Undone candidates fs₀ o fs
  calm : x = {} → o = .ok () ∨ o = .error .nothingOwned

theorem calm_not_early (n : ℕ) : ¬({} : CompressFates).FailsEarly n := by
  rintro (⟨k, -, h | h | h⟩ | h | h | h) <;> cases h

theorem calm_not_late (groups : List Group) : ¬({} : CompressFates).FailsLate groups := by
  rintro (h | h | h | ⟨g, -, h⟩) <;> cases h

theorem compressSnapshot_run (hk : Kept b candidates fs₀ fs) (hread : fs.manifest.isSome → x.read ≠ .fails)
    (hx : fs.manifest = none → x.Spared (ownedGroups candidates fs)) :
    Ends (compressSnapshot b candidates x) ⟨fs, []⟩ (Compressed b candidates fs₀ x) := by
  have hstop : ∀ fs', Kept b candidates fs₀ fs' → x ≠ {} → Compressed b candidates fs₀ x (.error .stop) fs' :=
    fun fs' hk' hne => ⟨hk', fun e h he => absurd (Except.error.inj h).symm he, fun h => absurd h hne⟩
  have hok : ∀ fs', Kept b candidates fs₀ fs' → Compressed b candidates fs₀ x (.ok ()) fs' :=
    fun fs' hk' => ⟨hk', fun _ h => (by cases h), fun _ => .inl rfl⟩
  cases hm : fs.manifest with
  | some rs =>
    have hrun : (compressSnapshot b candidates x).run ⟨fs, []⟩ = (perform x.read id : Io Data Box Unit).run
        ⟨fs, []⟩ := by
      rw [compressSnapshot, run_get_bind, hm]
    rcases Fate.done_or_stops (hread (by rw [hm]; rfl)) with hf | hf
    · exact .of_run _ _ (hrun.trans (perform_done hf _ _)) (hok _ hk)
    · refine .of_run _ _ (hrun.trans (perform_stops hf _ _)) (hstop _ hk ?_)
      rintro rfl
      cases hf
  | none =>
    have hw := hk.whole hm
    -- an exception of the code before `mkdir`
    have hraise : ∀ e, (x ≠ {} ∨ e = .nothingOwned) → (compressSnapshot b candidates x).run ⟨fs, []⟩ =
        (.error e, ⟨fs, []⟩) →
        Ends (compressSnapshot b candidates x) ⟨fs, []⟩ (Compressed b candidates fs₀ x) := by
      intro e hne h
      refine .of_run _ _ h ⟨hk, fun _ _ _ => ⟨hm, hw⟩, fun hcalm => .inr ?_⟩
      rcases hne with hne | rfl
      · exact absurd hcalm hne
      · rfl
    have hrun : (compressSnapshot b candidates x).run ⟨fs, []⟩ = (perform x.groups id >>= fun _ =>
        if (ownedGroups candidates fs).isEmpty then raise .nothingOwned
        else perform x.mkdir (fun fs => { fs with directory := true }) >>= fun _ =>
          (compressBody b x (ownedGroups candidates fs)).tryExcept (undo x) : Io Data Box Unit).run ⟨fs, []⟩ := by
      rw [compressSnapshot, run_get_bind]
      simp only [hm, hk.directory hm]
      rfl
    cases hg : x.groups with
    | fails => exact hraise .os (.inl (by rintro rfl; cases hg)) (by rw [hrun, run_bind_error (perform_fails hg _ _)])
    | stops => exact hraise .stop (.inl (by rintro rfl; cases hg)) (by rw [hrun, run_bind_error (perform_stops hg _ _)])
    | done =>
      rw [perform_pass hg, run_ite] at hrun
      split_ifs at hrun with hempty
      · exact hraise .nothingOwned (.inr rfl) hrun
      · cases hmkdir : x.mkdir with
        | fails =>
          exact hraise .os (.inl (by rintro rfl; cases hmkdir))
            (by rw [hrun, run_bind_error (perform_fails hmkdir _ _)])
        | stops =>
          exact hraise .stop (.inl (by rintro rfl; cases hmkdir))
            (by rw [hrun, run_bind_error (perform_stops hmkdir _ _)])
        | done =>
          rw [run_bind_ok (perform_done hmkdir _ _), run_tryExcept] at hrun
          have haside : Aside fs { fs with directory := true } := ⟨rfl, rfl, rfl⟩
          obtain ⟨o, w', hbody, hcontainers, hended⟩ :=
            compressBody_run (b := b) (w := ⟨{ fs with directory := true }, []⟩)
            (hx hm) (haside.faithful hk.faithful) (haside.whole hw) hm rfl rfl
          rw [hbody] at hrun
          cases hended with
          | early hf' hw' hm' hfails =>
            obtain ⟨hk', hundone⟩ := undo_early (b := b) ((hx hm).early hfails) hf' hw' hm' hcontainers .os (by decide)
            refine .of_run _ _ hrun ⟨hk', hundone, ?_⟩
            rintro rfl
            exact absurd hfails (calm_not_early _)
          | late hk' hw' hfails =>
            obtain ⟨hk', hundone⟩ := undo_late ((hx hm).late hfails) hk' hw' hcontainers .os (by decide)
            refine .of_run _ _ hrun ⟨hk', hundone, ?_⟩
            rintro rfl
            exact absurd hfails (calm_not_late _)
          | stopped hk' hne => exact .of_run (.error .stop) w' hrun (hstop _ hk' hne)
          | returned hk' => exact .of_run (.ok ()) w' hrun (hok _ hk')

end Compress

end ClawBox.Compression
