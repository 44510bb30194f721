import ClawBox.Cube.Client
import ClawBox.Cube.Reading

namespace ClawBox.Cube

open Transition JsonText

variable {show' : Json → Text} {w w' : World} {a : Action} {ev : Event}

/-- An append that returns begins a line. -/
def Starts (w : World) : Action → Prop
  | .append _ _ .returned => AtLineStart w.journal
  | _ => True

structure Shrinks (w w' : World) : Prop where
  journal : w'.journal = w.journal
  acked : w'.acked = w.acked
  inventory : ∀ id m, w'.inventory.get? id = some m → w.inventory.get? id = some m
  snapshots : ∀ id, (w'.snapshots.get? id).isSome → (w.snapshots.get? id).isSome

theorem Shrinks.refl (w : World) : Shrinks w w := ⟨rfl, rfl, fun _ _ h => h, fun _ h => h⟩

theorem Shrinks.trans {w'' : World} (h : Shrinks w w') (h' : Shrinks w' w'') : Shrinks w w'' :=
  ⟨h'.journal.trans h.journal, h'.acked.trans h.acked, fun id m hm => h.inventory id m (h'.inventory id m hm),
    fun id hid => h.snapshots id (h'.snapshots id hid)⟩

theorem shrinks_remove (w : World) (id : Text) : Shrinks w (w.remove id) := by
  refine ⟨rfl, rfl, ?_, fun _ h => h⟩
  intro id' m hm
  rw [World.remove, PyDict.get?_pop] at hm
  split_ifs at hm
  exact hm

theorem shrinks_discard (w : World) (id : Text) : Shrinks w { w with snapshots := w.snapshots.discard id } := by
  refine ⟨rfl, rfl, fun _ _ h => h, ?_⟩
  intro id' hid
  rw [PySet.discard, PyDict.get?_pop] at hid
  split_ifs at hid
  · cases hid
  · exact hid

variable (show') in
def Named (w : World) (kind : Kind) (owner id : Text) : Prop :=
  (∃ found, ids show' kind.field (some owner) w.journal = some found ∧ id ∈ found) ∨
    ∃ e ∈ w.acked, e.kind = kind ∧ e.id = id ∧ e.ownership.taskUid = owner

variable (show') in
def Owned (w : World) (owner id : Text) (m : Metadata) : Prop :=
  m.get? taskKey = some owner ∨ Named show' w .sandbox owner id

variable (show') in
def NoneOwned (w : World) (owner : Text) : Prop := ∀ id m, w.inventory.get? id = some m → ¬Owned show' w owner id m

variable (show') in
def Deleted (w : World) (owner : Text) (left missing : List Text) : Prop :=
  ∀ id, Named show' w .snapshot owner id → id ∈ left ∨ (w.snapshots.get? id).isSome = false ∨ id ∈ missing

variable (show') in
def CleanupStage.Tracks (w : World) (owner : Text) : CleanupStage → Prop
  | .listing journalIds => ∀ id, Named show' w .sandbox owner id → id ∈ journalIds
  | .killing kills =>
    ∀ id m, w.inventory.get? id = some m → Owned show' w owner id m → ∃ k ∈ kills, k.id = id ∧ k.stage ≠ .finished
  | .remaining errors => errors = [] → NoneOwned show' w owner
  | .snapshots errors _ left snapshotErrors missing =>
    (errors = [] → NoneOwned show' w owner) ∧ (snapshotErrors = [] → Deleted show' w owner left missing)

theorem Named.back (h : Shrinks w w') {kind : Kind} {owner id : Text} (hn : Named show' w' kind owner id) :
    Named show' w kind owner id := by
  unfold Named at hn ⊢
  rwa [h.journal, h.acked] at hn

theorem Named.found {kind : Kind} {owner id : Text} (hj : Journalled w.acked w.journal) {found : List Text}
    (hfound : ids show' kind.field (some owner) w.journal = some found) (hn : Named show' w kind owner id) :
    id ∈ found := by
  rcases hn with ⟨found', hfound', hmem⟩ | ⟨e, he, hkind, rfl, howner⟩
  · obtain rfl := Option.some.inj (hfound.symm.trans hfound')
    exact hmem
  · obtain ⟨found', hfound', hmem⟩ := @Journalled.found show' _ _ hj kind (some owner)
    obtain rfl := Option.some.inj (hfound.symm.trans hfound')
    exact hmem e he hkind (.inr (by rw [howner]))

theorem Owned.back (h : Shrinks w w') {owner id : Text} {m : Metadata} (ho : Owned show' w' owner id m) :
    Owned show' w owner id m := by
  exact ho.imp_right (Named.back h)

theorem NoneOwned.shrinks (h : Shrinks w w') {owner : Text} (hn : NoneOwned show' w owner) : NoneOwned show' w' owner :=
  fun id m hm ho => hn id m (h.inventory id m hm) (ho.back h)

theorem Deleted.shrinks (h : Shrinks w w') {owner : Text} {left missing : List Text}
    (hd : Deleted show' w owner left missing) :
    Deleted show' w' owner left missing := by
  intro id hid
  rcases hd id (hid.back h) with hleft | hgone | hmissing
  · exact .inl hleft
  · refine .inr (.inl ?_)
    cases hs : (w'.snapshots.get? id).isSome with
    | false => rfl
    | true => rw [h.snapshots id hs] at hgone; cases hgone
  · exact .inr (.inr hmissing)

theorem CleanupStage.Tracks.shrinks (h : Shrinks w w') {owner : Text} {s : CleanupStage} (ht : s.Tracks show' w owner) :
    s.Tracks show' w' owner := by
  cases s with
  | listing journalIds => exact fun id hid => ht id (hid.back h)
  | killing kills => exact fun id m hm ho => ht id m (h.inventory id m hm) (ho.back h)
  | remaining errors => exact fun herr => (ht herr).shrinks h
  | snapshots errors remaining left snapshotErrors missing =>
    exact ⟨fun herr => (ht.1 herr).shrinks h, fun herr => (ht.2 herr).shrinks h⟩

variable (show') in
structure Calm (w w' : World) : Prop where
  shrinks : Shrinks w w'
  cleanups : ∀ t c, w'.tasks.get? t = some (.cleaning c) → w.tasks.get? t = some (.cleaning c) ∨
    c.stage.Tracks show' w' c.owner

theorem put_cleaning {t t' : ℕ} {x : Task} {c : Cleanup} (h : (w.put t x).tasks.get? t' = some (.cleaning c)) :
    x = .cleaning c ∨ w.tasks.get? t' = some (.cleaning c) := by
  rw [World.put, PyDict.get?_set] at h
  split_ifs at h
  · exact .inl (Option.some.inj h)
  · exact .inr h

theorem done_cleaning {t t' : ℕ} {c : Cleanup} (h : (w.done t).tasks.get? t' = some (.cleaning c)) :
    w.tasks.get? t' = some (.cleaning c) := by
  rw [World.done, PyDict.get?_pop] at h
  split_ifs at h
  exact h

theorem Calm.put (hs : Shrinks w w') (ht : w'.tasks = w.tasks) (t : ℕ) {x : Task}
    (hx : ∀ c, x = .cleaning c → c.stage.Tracks show' w' c.owner) : Calm show' w (w'.put t x) := by
  refine ⟨⟨hs.journal, hs.acked, hs.inventory, hs.snapshots⟩, ?_⟩
  intro t' c hc
  rcases put_cleaning hc with heq | hold
  · exact .inr ((hx c heq).shrinks ⟨rfl, rfl, fun _ _ h => h, fun _ h => h⟩)
  · rw [ht] at hold
    exact .inl hold

theorem Calm.done (hs : Shrinks w w') (ht : w'.tasks = w.tasks) (t : ℕ) : Calm show' w (w'.done t) := by
  refine ⟨⟨hs.journal, hs.acked, hs.inventory, hs.snapshots⟩, ?_⟩
  intro t' c hc
  have hold := done_cleaning hc
  rw [ht] at hold
  exact .inl hold

theorem Kill.step_spec {k k' : Kill} {x : KillAnswer} (h : k.step x w = some (k', w')) :
    Shrinks w w' ∧ w'.tasks = w.tasks ∧ k'.id = k.id ∧ (k'.stage = .finished → w'.inventory.get? k.id = none) := by
  have hretry : ∀ s, (k.retry s).id = k.id ∧ (s ≠ .finished → (k.retry s).stage ≠ .finished) := by
    intro s
    unfold Kill.retry
    split_ifs
    · exact ⟨rfl, fun _ h => by cases h⟩
    · exact ⟨rfl, fun h => h⟩
  unfold Kill.step at h
  split at h
  · obtain ⟨rfl, rfl⟩ := Prod.mk.inj (Option.some.inj h)
    refine ⟨⟨rfl, rfl, fun _ _ h => h, fun _ h => h⟩, rfl, rfl, ?_⟩
    intro hstage
    simp only at hstage
    split_ifs at hstage
  · obtain ⟨rfl, rfl⟩ := Prod.mk.inj (Option.some.inj h)
    refine ⟨.refl _, rfl, rfl, ?_⟩
    intro hstage
    simp only at hstage
    split_ifs at hstage with hthere
    simpa using hthere
  · obtain ⟨rfl, rfl⟩ := Prod.mk.inj (Option.some.inj h)
    exact ⟨.refl _, rfl, (hretry _).1, fun hstage => absurd hstage ((hretry _).2 fun h => by cases h)⟩
  · obtain ⟨rfl, rfl⟩ := Prod.mk.inj (Option.some.inj h)
    exact ⟨shrinks_remove _ _, rfl, rfl, fun _ => PyDict.get?_pop_self _ _⟩
  · obtain ⟨rfl, rfl⟩ := Prod.mk.inj (Option.some.inj h)
    refine ⟨?_, ?_, rfl, fun h => by cases h⟩
    · split_ifs
      · exact shrinks_remove _ _
      · exact .refl _
    · split_ifs <;> rfl
  · obtain ⟨rfl, rfl⟩ := Prod.mk.inj (Option.some.inj h)
    refine ⟨.refl _, rfl, ?_, ?_⟩
    · split_ifs
      · exact (hretry _).1
      · rfl
    · intro hstage
      split_ifs at hstage with hthere
      · exact absurd hstage ((hretry _).2 fun h => by cases h)
      · simpa using hthere
  · obtain ⟨rfl, rfl⟩ := Prod.mk.inj (Option.some.inj h)
    exact ⟨.refl _, rfl, (hretry _).1, fun hstage => absurd hstage ((hretry _).2 fun h => by cases h)⟩
  · cases h
  · cases h

def Truthful : Action → Prop
  | .deleteSnapshot _ (.raised text _ missing) => readsMissing text = true → missing = true
  | _ => True

variable (show') in
def Cleaned (w : World) (ev : Event) : Prop :=
  ∀ owner missing, ev = .cleaned owner missing → NoneOwned show' w owner ∧ Deleted show' w owner [] missing

theorem tracks_listed {owner : Text} {journalIds : List Text} (hnamed : ∀ id m, w.inventory.get? id = some m → id ≠ [])
    (ht : (CleanupStage.listing journalIds).Tracks show' w owner) :
    (CleanupStage.killing ((owned owner journalIds w.inventory).map fun id => { id })).Tracks show' w owner := by
  intro id m hm ho
  have hmem : id ∈ owned owner journalIds w.inventory := by
    refine List.mem_filter.mpr ⟨List.mem_map.mpr ⟨(id, m), List.mem_filter.mpr ⟨PyDict.get?_eq_some.mp hm, ?_⟩, rfl⟩,
      ?_⟩
    · rcases ho with hown | hname
      · simp [hown]
      · simp [ht id hname]
    · simp [hnamed id m hm]
  exact ⟨{ id }, List.mem_map_of_mem hmem, rfl, fun h => by cases h⟩

theorem tracks_pool {owner : Text} {kills : List Kill} (ht : (CleanupStage.killing kills).Tracks show' w owner) {i : ℕ}
    {k k' : Kill} {x : KillAnswer} (hk : kills[i]? = some k) (h : k.step x w = some (k', w')) :
    (CleanupStage.killing (kills.set i k')).Tracks show' w' owner := by
  obtain ⟨hs, -, hid, hfinished⟩ := Kill.step_spec h
  intro id m hm ho
  obtain ⟨k₀, hk₀, hid₀, hstage⟩ := ht id m (hs.inventory id m hm) (ho.back hs)
  obtain ⟨j, hj⟩ := List.mem_iff_getElem?.mp hk₀
  have hlt : i < kills.length := (List.getElem?_eq_some_iff.mp hk).1
  by_cases hij : j = i
  · subst hij
    obtain rfl := Option.some.inj (hk.symm.trans hj)
    refine ⟨k', List.mem_of_getElem? (List.getElem?_set_self hlt), hid.trans hid₀, ?_⟩
    intro hdone
    rw [← hid₀, hfinished hdone] at hm
    cases hm
  · refine ⟨k₀, List.mem_of_getElem? (i := j) ?_, hid₀, hstage⟩
    rw [List.getElem?_set_ne (Ne.symm hij), hj]

theorem tracks_joined {owner : Text} {kills : List Kill} (ht : (CleanupStage.killing kills).Tracks show' w owner)
    (hall : (kills.all fun k => k.stage = .finished || k.stage = .failed) = true) :
    (CleanupStage.remaining ((kills.filter fun k => k.stage = .failed).map Kill.id)).Tracks show' w owner := by
  intro herrors id m hm ho
  obtain ⟨k, hk, -, hstage⟩ := ht id m hm ho
  have hend := List.all_eq_true.mp hall k hk
  simp only [Bool.or_eq_true, decide_eq_true_eq] at hend
  have hfailed : k ∈ kills.filter fun k => k.stage = .failed :=
    List.mem_filter.mpr ⟨hk, by simp [hend.resolve_left hstage]⟩
  rw [List.map_eq_nil_iff.mp herrors] at hfailed
  cases hfailed

theorem tracks_relisted {owner : Text} {errors remaining left : List Text} (hj : Journalled w.acked w.journal)
    (ht : (CleanupStage.remaining errors).Tracks show' w owner)
    (hleft : snapshotIds show' (some owner) w.journal = some left) :
    (CleanupStage.snapshots errors remaining left [] []).Tracks show' w owner := by
  exact ⟨ht, fun _ id hid => .inl (hid.found hj hleft)⟩

theorem tracks_deleted {owner id : Text} {errors remaining left snapshotErrors missing : List Text}
    (ht : (CleanupStage.snapshots errors remaining (id :: left) snapshotErrors missing).Tracks show' w owner) :
    (CleanupStage.snapshots errors remaining left snapshotErrors missing).Tracks show'
      { w with snapshots := w.snapshots.discard id } owner := by
  have hs := shrinks_discard w id
  refine ⟨fun herr => (ht.1 herr).shrinks hs, fun herr id' hid => ?_⟩
  rcases (ht.2 herr).shrinks hs id' hid with hleft | hrest
  · rcases List.mem_cons.mp hleft with heq | hleft
    · refine .inr (.inl ?_)
      rw [heq]
      simp [PySet.discard]
    · exact .inl hleft
  · exact .inr hrest

theorem tracks_undeleted {owner id text : Text} {errors remaining left snapshotErrors missing : List Text}
    {isMissing : Bool} (hs : Shrinks w w') (htruth : readsMissing text = true → isMissing = true)
    (ht : (CleanupStage.snapshots errors remaining (id :: left) snapshotErrors missing).Tracks show' w owner) :
    (CleanupStage.snapshots errors remaining left
      (if readsMissing text then snapshotErrors else snapshotErrors ++ [id])
      (if isMissing then missing ++ [id] else missing)).Tracks show' w' owner := by
  refine ⟨fun herr => (ht.1 herr).shrinks hs, fun herr id' hid => ?_⟩
  by_cases hreads : readsMissing text = true
  · rw [if_pos hreads] at herr
    rw [if_pos (htruth hreads)]
    rcases (ht.2 herr).shrinks hs id' hid with hleft | hgone | hmissing
    · rcases List.mem_cons.mp hleft with heq | hleft
      · exact .inr (.inr (by simp [heq]))
      · exact .inl hleft
    · exact .inr (.inl hgone)
    · exact .inr (.inr (List.mem_append_left _ hmissing))
  · rw [if_neg hreads] at herr
    simp at herr

theorem cleanupStep_spec {t : ℕ} {c : Cleanup} (hj : Journalled w.acked w.journal)
    (hnamed : ∀ id m, w.inventory.get? id = some m → id ≠ []) (hc : c.stage.Tracks show' w c.owner)
    (htruth : Truthful a) (h : cleanupStep show' w t c a = some (w', ev)) : Calm show' w w' ∧ Cleaned show' w' ev := by
  have hquiet : ∀ {w' : World} {ev : Event}, Calm show' w w' → (ev = .silent ∨ ev = .raised) → Calm show' w w' ∧
      Cleaned show' w' ev := by
    rintro w' ev hcalm (rfl | rfl)
    · exact ⟨hcalm, fun _ _ h => by cases h⟩
    · exact ⟨hcalm, fun _ _ h => by cases h⟩
  obtain ⟨owner, stage⟩ := c
  simp only at hc
  cases a with
  | listed t' ok =>
    cases stage with
    | listing journalIds =>
      simp only [cleanupStep] at h
      split_ifs at h
      · obtain ⟨rfl, rfl⟩ := Prod.mk.inj (Option.some.inj h)
        have hs : Shrinks w { w with handles := (owned owner journalIds w.inventory).foldl PySet.add w.handles } :=
          ⟨rfl, rfl, fun _ _ h => h, fun _ h => h⟩
        refine hquiet (.put hs rfl t ?_) (.inl rfl)
        rintro c ⟨⟩
        exact (tracks_listed hnamed hc).shrinks hs
      · obtain ⟨rfl, rfl⟩ := Prod.mk.inj (Option.some.inj h)
        exact hquiet (.done (.refl _) rfl t) (.inr rfl)
    | _ => cases h
  | poolStep t' i x =>
    cases stage with
    | killing kills =>
      simp only [cleanupStep] at h
      split at h
      · cases h
      · rename_i k hk
        obtain ⟨⟨k', w₁⟩, hstep, heq⟩ := Option.map_eq_some_iff.mp h
        obtain ⟨rfl, rfl⟩ := Prod.mk.inj heq
        obtain ⟨hs, htasks, -⟩ := Kill.step_spec hstep
        refine hquiet (.put hs htasks t ?_) (.inl rfl)
        rintro c ⟨⟩
        exact tracks_pool hc hk hstep
    | _ => cases h
  | joined t' =>
    cases stage with
    | killing kills =>
      simp only [cleanupStep] at h
      split_ifs at h with hall
      obtain ⟨rfl, rfl⟩ := Prod.mk.inj (Option.some.inj h)
      refine hquiet (.put (.refl _) rfl t ?_) (.inl rfl)
      rintro c ⟨⟩
      exact tracks_joined hc hall
    | _ => cases h
  | relisted t' ok =>
    cases stage with
    | remaining errors =>
      simp only [cleanupStep] at h
      split_ifs at h
      · split at h
        · obtain ⟨rfl, rfl⟩ := Prod.mk.inj (Option.some.inj h)
          exact hquiet (.done (.refl _) rfl t) (.inr rfl)
        · rename_i left hleft
          obtain ⟨rfl, rfl⟩ := Prod.mk.inj (Option.some.inj h)
          refine hquiet (.put (.refl _) rfl t ?_) (.inl rfl)
          rintro c ⟨⟩
          exact tracks_relisted hj hc hleft
      · obtain ⟨rfl, rfl⟩ := Prod.mk.inj (Option.some.inj h)
        exact hquiet (.done (.refl _) rfl t) (.inr rfl)
    | _ => cases h
  | deleteSnapshot t' x =>
    cases stage with
    | snapshots errors remaining left snapshotErrors missing =>
      cases left with
      | nil => cases h
      | cons id left =>
        cases x with
        | ok =>
          obtain ⟨rfl, rfl⟩ := Prod.mk.inj (Option.some.inj h)
          refine hquiet (.put (shrinks_discard w id) rfl t ?_) (.inl rfl)
          rintro c ⟨⟩
          exact tracks_deleted hc
        | raised text removed isMissing =>
          obtain ⟨rfl, rfl⟩ := Prod.mk.inj (Option.some.inj h)
          have hs : Shrinks w { w with snapshots := if removed then w.snapshots.discard id else w.snapshots } := by
            split_ifs
            · exact shrinks_discard w id
            · exact .refl w
          refine hquiet (.put hs rfl t ?_) (.inl rfl)
          rintro c ⟨⟩
          exact tracks_undeleted hs htruth hc
    | _ => cases h
  | finish t' =>
    cases stage with
    | snapshots errors remaining left snapshotErrors missing =>
      cases left with
      | nil =>
        obtain ⟨rfl, rfl⟩ := Prod.mk.inj (Option.some.inj h)
        have hcalm : Calm show' w (w.done t) := .done (.refl _) rfl t
        refine ⟨hcalm, ?_⟩
        intro owner' missing' hev
        unfold Cleanup.finish at hev
        split_ifs at hev with hclear
        obtain ⟨rfl, rfl⟩ := Event.cleaned.inj hev
        exact ⟨(hc.1 hclear.1).shrinks hcalm.shrinks, (hc.2 hclear.2.2).shrinks hcalm.shrinks⟩
      | cons id left => cases h
    | _ => cases h
  | _ => cases h

structure Sound (w : World) : Prop where
  journalled : Journalled w.acked w.journal
  named : ∀ id m, w.inventory.get? id = some m → id ≠ []

theorem Sound.keep (h : Sound w) (hj : w'.journal = w.journal) (ha : w'.acked = w.acked)
    (hnamed : ∀ id m, w'.inventory.get? id = some m → id ≠ []) : Sound w' :=
  ⟨by rw [hj, ha]; exact h.journalled, hnamed⟩

theorem Sound.shrinks (h : Sound w) (hs : Shrinks w w') : Sound w' :=
  h.keep hs.journal hs.acked fun id m hm => h.named id m (hs.inventory id m hm)

theorem Sound.enter (h : Sound w) {id : Text} {m : Metadata} (he : w.enter id m = some w') : Sound w' := by
  unfold World.enter at he
  split_ifs at he with hbad
  obtain rfl := Option.some.inj he
  refine h.keep rfl rfl ?_
  intro id' m' hm'
  simp only [PyDict.get?_set] at hm'
  split_ifs at hm' with heq
  · rw [heq]
    exact (not_or.mp hbad).1
  · exact h.named id' m' hm'

theorem enter_tasks {id : Text} {m : Metadata} (he : w.enter id m = some w') : w'.tasks = w.tasks := by
  unfold World.enter at he
  split_ifs at he
  rw [← Option.some.inj he]

theorem Sound.appendStep (h : Sound w) {t : ℕ} {e : Entry} {after : Option Task} {written : ℕ} {ending : Ending}
    (hstart : ending = .returned → AtLineStart w.journal) (hs : appendStep w t e after written ending = some (w', ev)) :
    Sound w' := by
  unfold Cube.appendStep at hs
  split at hs
  · cases hs
  · rename_i journal hrecord
    have hjournal := h.journalled.record hrecord hstart
    cases ending with
    | returned =>
      cases after with
      | none =>
        obtain ⟨rfl, -⟩ := Prod.mk.inj (Option.some.inj hs)
        exact ⟨hjournal, h.named⟩
      | some x =>
        obtain ⟨rfl, -⟩ := Prod.mk.inj (Option.some.inj hs)
        exact ⟨hjournal, h.named⟩
    | raised | killed =>
      obtain ⟨rfl, -⟩ := Prod.mk.inj (Option.some.inj hs)
      exact ⟨hjournal, h.named⟩

def Cleanless (w : World) : Prop := ∀ t c, w.tasks.get? t ≠ some (.cleaning c)

theorem cleanless_put (h : Cleanless w) (t : ℕ) {x : Task} (hx : ∀ c, x ≠ .cleaning c) : Cleanless (w.put t x) := by
  intro t' c hc
  rcases put_cleaning hc with heq | hold
  · exact hx c heq
  · exact h t' c hold

theorem cleanless_done (h : Cleanless w) (t : ℕ) : Cleanless (w.done t) := fun t' c hc => h t' c (done_cleaning hc)

theorem cleanless_appendStep (h : Cleanless w) {t : ℕ} {e : Entry} {after : Option Task}
    (hafter : ∀ c, after ≠ some (.cleaning c)) {written : ℕ} {ending : Ending}
    (hs : appendStep w t e after written ending = some (w', ev)) :
    Cleanless w' ∧ Cleaned show' w' ev := by
  unfold Cube.appendStep at hs
  split at hs
  · cases hs
  · rename_i journal hrecord
    have hsame : Cleanless { w with journal } := h
    cases ending with
    | returned =>
      cases after with
      | none =>
        obtain ⟨rfl, rfl⟩ := Prod.mk.inj (Option.some.inj hs)
        exact ⟨cleanless_done (w := { w with journal, acked := w.acked ++ [e] }) h t, fun _ _ h => by cases h⟩
      | some x =>
        obtain ⟨rfl, rfl⟩ := Prod.mk.inj (Option.some.inj hs)
        refine ⟨cleanless_put (w := { w with journal, acked := w.acked ++ [e] }) h t ?_, fun _ _ h => by cases h⟩
        rintro c rfl
        exact hafter c rfl
    | raised =>
      obtain ⟨rfl, rfl⟩ := Prod.mk.inj (Option.some.inj hs)
      exact ⟨cleanless_done hsame t, fun _ _ h => by cases h⟩
    | killed =>
      obtain ⟨rfl, rfl⟩ := Prod.mk.inj (Option.some.inj hs)
      refine ⟨?_, fun _ _ h => by cases h⟩
      intro t' c hc
      cases hc

def Creates : Action → Prop
  | .created _ _ | .append _ _ _ | .snapshotted _ _ | .arrive _ _ => True
  | _ => False

theorem retryTask_calm (w : World) (t left : ℕ) (again : ℕ → Task) (hx : ∀ n c, again n ≠ .cleaning c) :
    Calm show' w (retryTask w t left again).1 ∧
    Cleaned show' (retryTask w t left again).1 (retryTask w t left again).2 := by
  unfold retryTask
  split_ifs
  · exact ⟨.done (.refl _) rfl t, fun _ _ h => by cases h⟩
  · exact ⟨.put (.refl _) rfl t fun c hc => absurd hc (hx _ c), fun _ _ h => by cases h⟩

theorem taskStep_calm {t : ℕ} {x : Task} (hx : ∀ c, x ≠ .cleaning c) (hq : ¬Creates a)
    (h : taskStep show' w t x a = some (w', ev)) : Calm show' w w' ∧ Cleaned show' w' ev := by
  have hshrinks : ∀ d, Shrinks w { w with handles := d } := fun d => ⟨rfl, rfl, fun _ _ h => h, fun _ h => h⟩
  cases x with
  | creating o => cases a with
    | created => exact absurd trivial hq
    | _ => cases h
  | snapshotting o => cases a with
    | snapshotted => exact absurd trivial hq
    | _ => cases h
  | recovered o id => cases a with
    | append => exact absurd trivial hq
    | _ => cases h
  | recording e => cases a with
    | append => exact absurd trivial hq
    | _ => cases h
  | resolving o left => cases a with
    | resolve t' ok =>
      cases ok with
      | false =>
        have heq := Option.some.inj h
        have hcalm := @retryTask_calm show' w t left (.resolving o) fun _ _ h => by cases h
        rw [heq] at hcalm
        exact hcalm
      | true =>
        simp only [taskStep] at h
        split at h
        · obtain ⟨rfl, rfl⟩ := Prod.mk.inj (Option.some.inj h)
          exact ⟨.put (.refl _) rfl t (fun _ h => by cases h), fun _ _ h => by cases h⟩
        · have hcalm := @retryTask_calm show' w t left (.resolving o) fun _ _ h => by cases h
          rw [Option.some.inj h] at hcalm
          exact hcalm
    | _ => cases h
  | probing o id left => cases a with
    | probe t' ok =>
      cases ok with
      | false =>
        have hcalm := @retryTask_calm show' w t left (.probing o id) fun _ _ h => by cases h
        rw [Option.some.inj h] at hcalm
        exact hcalm
      | true =>
        obtain ⟨rfl, rfl⟩ := Prod.mk.inj (Option.some.inj h)
        exact ⟨.put (hshrinks (w.handles.add id)) rfl t (fun _ h => by cases h), fun _ _ h => by cases h⟩
    | _ => cases h
  | killing k => cases a with
    | killStep t' x =>
      obtain ⟨⟨k', w₁⟩, hstep, heq⟩ := Option.map_eq_some_iff.mp h
      obtain ⟨hs, htasks, -⟩ := Kill.step_spec hstep
      simp only at heq
      split_ifs at heq
      · obtain ⟨rfl, rfl⟩ := Prod.mk.inj heq
        exact ⟨.done hs htasks t, fun _ _ h => by cases h⟩
      · obtain ⟨rfl, rfl⟩ := Prod.mk.inj heq
        exact ⟨.done hs htasks t, fun _ _ h => by cases h⟩
      · obtain ⟨rfl, rfl⟩ := Prod.mk.inj heq
        exact ⟨.put hs htasks t (fun _ h => by cases h), fun _ _ h => by cases h⟩
    | _ => cases h
  | closing id => cases a with
    | closed t' x =>
      cases x with
      | ok =>
        obtain ⟨rfl, rfl⟩ := Prod.mk.inj (Option.some.inj h)
        have hs : Shrinks w { w.remove id with handles := w.handles.discard id } :=
          (shrinks_remove w id).trans ⟨rfl, rfl, fun _ _ h => h, fun _ h => h⟩
        exact ⟨.done hs rfl t, fun _ _ h => by cases h⟩
      | raised removed =>
        obtain ⟨rfl, rfl⟩ := Prod.mk.inj (Option.some.inj h)
        have hs : Shrinks w { (if removed then w.remove id else w) with handles := w.handles.discard id } := by
          split_ifs
          · exact (shrinks_remove w id).trans ⟨rfl, rfl, fun _ _ h => h, fun _ h => h⟩
          · exact hshrinks _
        have htasks : (if removed then w.remove id else w).tasks = w.tasks := by split_ifs <;> rfl
        exact ⟨.done hs htasks t, fun _ _ h => by cases h⟩
    | _ => cases h
  | cleaning c => exact absurd rfl (hx c)

theorem taskStep_creates {t : ℕ} {x : Task} (hq : Creates a) (h : taskStep show' w t x a = some (w', ev)) :
    (Sound w → Starts w a → Sound w') ∧ (Cleanless w → Cleanless w' ∧ Cleaned show' w' ev) := by
  cases a with
  | created t' answer => cases x with
    | creating o =>
      have henter : ∀ {id : Text} {w₁ : World} {x : Task} {d : PySet Text}, w.enter id o.metadata = some w₁ →
          (∀ c, x ≠ .cleaning c) →
          (Sound w → Starts w (.created t' answer) → Sound ({ w₁ with handles := d }.put t x)) ∧
            (Cleanless w → Cleanless ({ w₁ with handles := d }.put t x) ∧
              Cleaned show' ({ w₁ with handles := d }.put t x) .silent) := by
        intro id w₁ x d he hx
        refine ⟨fun hs _ => (hs.enter he).keep rfl rfl (hs.enter he).named, fun hc => ⟨?_, fun _ _ h => by cases h⟩⟩
        refine cleanless_put (w := { w₁ with handles := d }) ?_ t hx
        intro t' c
        simp only [enter_tasks he]
        exact hc t' c
      cases answer with
      | created id =>
        obtain ⟨w₁, he, heq⟩ := Option.map_eq_some_iff.mp h
        obtain ⟨rfl, rfl⟩ := Prod.mk.inj heq
        exact henter he fun _ h => by cases h
      | ambiguous made =>
        cases made with
        | none =>
          obtain ⟨rfl, rfl⟩ := Prod.mk.inj (Option.some.inj h)
          exact ⟨fun hs _ => hs.keep rfl rfl hs.named,
            fun hc => ⟨cleanless_put hc t (fun _ h => by cases h), fun _ _ h => by cases h⟩⟩
        | some id =>
          obtain ⟨w₁, he, heq⟩ := Option.map_eq_some_iff.mp h
          obtain ⟨rfl, rfl⟩ := Prod.mk.inj heq
          exact henter he fun _ h => by cases h
      | rejected =>
        obtain ⟨rfl, rfl⟩ := Prod.mk.inj (Option.some.inj h)
        exact ⟨fun hs _ => hs.keep rfl rfl hs.named, fun hc => ⟨cleanless_done hc t, fun _ _ h => by cases h⟩⟩
    | cleaning c => cases h
    | _ => cases h
  | append t' written ending => cases x with
    | recovered o id =>
      have h' : appendStep w t ⟨.sandbox, id, o⟩ (some (.probing o id 10)) written ending = some (w', ev) := h
      refine ⟨fun hs hstart => hs.appendStep ?_ h', fun hc => cleanless_appendStep hc (fun c hc => by cases hc) h'⟩
      rintro rfl
      exact hstart
    | recording e =>
      have h' : appendStep w t e none written ending = some (w', ev) := h
      refine ⟨fun hs hstart => hs.appendStep ?_ h', fun hc => cleanless_appendStep hc (fun c hc => by cases hc) h'⟩
      rintro rfl
      exact hstart
    | _ => cases h
  | snapshotted t' id => cases x with
    | snapshotting o => cases id with
      | none =>
        obtain ⟨rfl, rfl⟩ := Prod.mk.inj (Option.some.inj h)
        exact ⟨fun hs _ => hs.keep rfl rfl hs.named, fun hc => ⟨cleanless_done hc t, fun _ _ h => by cases h⟩⟩
      | some id =>
        obtain ⟨rfl, rfl⟩ := Prod.mk.inj (Option.some.inj h)
        refine ⟨fun hs _ => hs.keep rfl rfl hs.named, fun hc => ⟨?_, fun _ _ h => by cases h⟩⟩
        exact cleanless_put (w := { w with snapshots := w.snapshots.add id }) hc t fun _ h => by cases h
    | _ => cases h
  | arrive id m => cases x <;> cases h
  | _ => exact absurd hq (fun hf => hf)

theorem cleanupStep_shrinks {t : ℕ} {c : Cleanup} (h : cleanupStep show' w t c a = some (w', ev)) : Shrinks w w' := by
  have hsame : ∀ {d : PySet Text} {ts : PyDict ℕ Task}, Shrinks w { w with handles := d, tasks := ts } :=
    ⟨rfl, rfl, fun _ _ h => h, fun _ h => h⟩
  obtain ⟨owner, stage⟩ := c
  cases a with
  | listed t' ok => cases stage with
    | listing journalIds =>
      simp only [cleanupStep] at h
      split_ifs at h <;> obtain ⟨rfl, -⟩ := Prod.mk.inj (Option.some.inj h) <;> exact hsame
    | _ => cases h
  | poolStep t' i x => cases stage with
    | killing kills =>
      simp only [cleanupStep] at h
      split at h
      · cases h
      · obtain ⟨⟨k', w₁⟩, hstep, heq⟩ := Option.map_eq_some_iff.mp h
        obtain ⟨rfl, -⟩ := Prod.mk.inj heq
        obtain ⟨hs, -⟩ := Kill.step_spec hstep
        exact ⟨hs.journal, hs.acked, hs.inventory, hs.snapshots⟩
    | _ => cases h
  | joined t' => cases stage with
    | killing kills =>
      simp only [cleanupStep] at h
      split_ifs at h
      obtain ⟨rfl, -⟩ := Prod.mk.inj (Option.some.inj h)
      exact hsame
    | _ => cases h
  | relisted t' ok => cases stage with
    | remaining errors =>
      simp only [cleanupStep] at h
      split_ifs at h
      · split at h <;> obtain ⟨rfl, -⟩ := Prod.mk.inj (Option.some.inj h) <;> exact hsame
      · obtain ⟨rfl, -⟩ := Prod.mk.inj (Option.some.inj h)
        exact hsame
    | _ => cases h
  | deleteSnapshot t' x => cases stage with
    | snapshots errors remaining left snapshotErrors missing => cases left with
      | nil => cases h
      | cons id left => cases x with
        | ok =>
          obtain ⟨rfl, -⟩ := Prod.mk.inj (Option.some.inj h)
          exact (shrinks_discard w id).trans ⟨rfl, rfl, fun _ _ h => h, fun _ h => h⟩
        | raised text removed isMissing =>
          obtain ⟨rfl, -⟩ := Prod.mk.inj (Option.some.inj h)
          cases removed with
          | true => exact (shrinks_discard w id).trans ⟨rfl, rfl, fun _ _ h => h, fun _ h => h⟩
          | false => exact hsame
    | _ => cases h
  | finish t' => cases stage with
    | snapshots errors remaining left snapshotErrors missing => cases left with
      | nil =>
        obtain ⟨rfl, -⟩ := Prod.mk.inj (Option.some.inj h)
        exact hsame
      | cons id left => cases h
    | _ => cases h
  | _ => cases h

theorem Sound.next (hs : Sound w) (hstart : Starts w a) (h : next show' w a = some (w', ev)) : Sound w' := by
  unfold Cube.next at h
  cases htask : a.task with
  | some t =>
    rw [htask] at h
    obtain ⟨x, hx, hstep⟩ := Option.bind_eq_some_iff.mp h
    by_cases hq : Creates a
    · exact (taskStep_creates hq hstep).1 hs hstart
    · by_cases hclean : ∃ c, x = .cleaning c
      · obtain ⟨c, rfl⟩ := hclean
        exact hs.shrinks (cleanupStep_shrinks hstep)
      · exact hs.shrinks (taskStep_calm (fun c hc => hclean ⟨c, hc⟩) hq hstep).1.shrinks
  | none =>
    have hbegin : ∀ {t : ℕ} {x : Task}, begin w t x = some (w', ev) → Sound w' := by
      intro t x hb
      unfold begin at hb
      split_ifs at hb
      obtain ⟨rfl, -⟩ := Prod.mk.inj (Option.some.inj hb)
      exact hs.keep rfl rfl hs.named
    rw [htask] at h
    cases a with
    | create t o | snapshot t o | kill t id | close t id => exact hbegin h
    | cleanup t owner =>
      simp only at h
      split at h
      · obtain ⟨rfl, -⟩ := Prod.mk.inj (Option.some.inj h)
        exact hs
      · exact hbegin h
    | crash =>
      obtain ⟨rfl, -⟩ := Prod.mk.inj (Option.some.inj h)
      exact hs.keep rfl rfl hs.named
    | arrive id m =>
      obtain ⟨w₁, he, heq⟩ := Option.map_eq_some_iff.mp h
      obtain ⟨rfl, -⟩ := Prod.mk.inj heq
      exact hs.enter he
    | vanish id =>
      obtain ⟨rfl, -⟩ := Prod.mk.inj (Option.some.inj h)
      exact hs.shrinks (shrinks_remove w id)
    | _ => cases htask

variable (show') in
def Tracked (w : World) : Prop := ∀ t c, w.tasks.get? t = some (.cleaning c) → c.stage.Tracks show' w c.owner

theorem Tracked.calm (ht : Tracked show' w) (hc : Calm show' w w') : Tracked show' w' := by
  intro t c htask
  rcases hc.cleanups t c htask with hold | hnew
  · exact (ht t c hold).shrinks hc.shrinks
  · exact hnew

theorem Cleanless.tracked (h : Cleanless w) : Tracked show' w := fun t c htask => absurd htask (h t c)

def Quiet (w : World) (a : Action) : Prop := (∃ t c, w.tasks.get? t = some (.cleaning c)) → ¬Creates a

theorem Tracked.next (hs : Sound w) (ht : Tracked show' w) (hq : Quiet w a) (htruth : Truthful a)
    (h : next show' w a = some (w', ev)) : Tracked show' w' ∧ Cleaned show' w' ev := by
  have hcreates : Creates a → Cleanless w := fun hc t c htask => hq ⟨t, c, htask⟩ hc
  unfold Cube.next at h
  cases htask : a.task with
  | some t =>
    rw [htask] at h
    obtain ⟨x, hx, hstep⟩ := Option.bind_eq_some_iff.mp h
    by_cases hc : Creates a
    · obtain ⟨hless, hcleaned⟩ := (taskStep_creates hc hstep).2 (hcreates hc)
      exact ⟨hless.tracked, hcleaned⟩
    · by_cases hclean : ∃ c, x = .cleaning c
      · obtain ⟨c, rfl⟩ := hclean
        obtain ⟨hcalm, hcleaned⟩ := cleanupStep_spec hs.journalled hs.named (ht t c hx) htruth hstep
        exact ⟨ht.calm hcalm, hcleaned⟩
      · obtain ⟨hcalm, hcleaned⟩ := taskStep_calm (fun c hc => hclean ⟨c, hc⟩) hc hstep
        exact ⟨ht.calm hcalm, hcleaned⟩
  | none =>
    have hbegin : ∀ {t : ℕ} {x : Task}, (∀ c, x = .cleaning c → c.stage.Tracks show' w c.owner) →
        begin w t x = some (w', ev) → Tracked show' w' ∧ Cleaned show' w' ev := by
      intro t x hx hb
      unfold begin at hb
      split_ifs at hb
      obtain ⟨rfl, rfl⟩ := Prod.mk.inj (Option.some.inj hb)
      exact ⟨ht.calm (.put (.refl w) rfl t hx), fun _ _ h => by cases h⟩
    rw [htask] at h
    cases a with
    | create t o | snapshot t o | kill t id | close t id => exact hbegin (fun c hc => by cases hc) h
    | cleanup t owner =>
      simp only at h
      split at h
      · obtain ⟨rfl, rfl⟩ := Prod.mk.inj (Option.some.inj h)
        exact ⟨ht, fun _ _ h => by cases h⟩
      · rename_i journalIds hids
        refine hbegin ?_ h
        rintro c ⟨⟩ id hid
        exact hid.found hs.journalled hids
    | crash =>
      obtain ⟨rfl, rfl⟩ := Prod.mk.inj (Option.some.inj h)
      refine ⟨Cleanless.tracked ?_, fun _ _ h => by cases h⟩
      intro t c hc
      cases hc
    | arrive id m =>
      obtain ⟨w₁, he, heq⟩ := Option.map_eq_some_iff.mp h
      obtain ⟨rfl, rfl⟩ := Prod.mk.inj heq
      refine ⟨Cleanless.tracked ?_, fun _ _ h => by cases h⟩
      intro t c hc
      simp only [enter_tasks he] at hc
      exact hcreates trivial t c hc
    | vanish id =>
      obtain ⟨rfl, rfl⟩ := Prod.mk.inj (Option.some.inj h)
      exact ⟨ht.calm ⟨shrinks_remove w id, fun t c hc => .inl hc⟩, fun _ _ h => by cases h⟩
    | _ => cases htask

theorem Sound.start (h : Start w) : Sound w ∧ Tracked show' w := by
  obtain ⟨hjournal, hacked, htasks, -, hnamed⟩ := h
  refine ⟨⟨?_, hnamed⟩, ?_⟩
  · rw [hjournal, hacked]
    exact journalled_nil
  · intro t c hc
    rw [htasks] at hc
    cases hc

/-- While every append that returns begins a line, each acknowledged identifier is found; and when nothing is created
beside a cleanup that returns, and no other error reads like a missing snapshot, it leaves nothing of its owner. -/
theorem owned_resources_kept {w₀ : World} (hstart : Start w₀) :
    (∀ (ls : List (Action × Event)) (w : World), Run ((system show').restrict fun w l => Starts w l.1) w₀ ls w →
      ∀ e ∈ w.acked, ∀ uid : Option Text, (uid = none ∨ uid = some e.ownership.taskUid) →
        ∃ found, ids show' e.kind.field uid w.journal = some found ∧ e.id ∈ found) ∧
      ∀ (ls : List (Action × Event)) (w w' : World) (a : Action) (owner : Text) (missing : List Text),
        Run ((system show').restrict fun w l => Starts w l.1 ∧ Quiet w l.1 ∧ Truthful l.1) w₀ ls w →
          Starts w a → Quiet w a → Truthful a → next show' w a = some (w', .cleaned owner missing) →
            NoneOwned show' w' owner ∧ Deleted show' w' owner [] missing := by
  obtain ⟨hsound, htracked⟩ := Sound.start hstart
  constructor
  · intro ls w hrun e he uid huid
    have hs : Sound w := hrun.invariant (fun s l t hs h => hs.next h.2 h.1) hsound
    obtain ⟨found, hfound, hmem⟩ := hs.journalled.found e.kind uid
    exact ⟨found, hfound, hmem e he rfl huid⟩
  · intro ls w w' a owner missing hrun hs hq htruth hn
    have hinv : Sound w ∧ Tracked show' w := by
      refine hrun.invariant (I := fun w => Sound w ∧ Tracked show' w) ?_ ⟨hsound, htracked⟩
      rintro s l t ⟨hs, ht⟩ ⟨hstep, hstarts, hquiet, htruthful⟩
      exact ⟨hs.next hstarts hstep, (Tracked.next hs ht hquiet htruthful hstep).1⟩
    exact (Tracked.next hinv.1 hinv.2 hq htruth hn).2 owner missing rfl

instance (w : World) (a : Action) : Decidable (Starts w a) :=
  match a with
  | .append _ _ .returned => inferInstanceAs (Decidable (AtLineStart w.journal))
  | .append _ _ .raised | .append _ _ .killed | .create _ _ | .created _ _ | .resolve _ _ | .probe _ _ | .snapshot _ _
  | .snapshotted _ _ | .kill _ _ | .killStep _ _ | .close _ _ | .closed _ _ | .cleanup _ _ | .listed _ _ |
    .poolStep _ _ _
  | .joined _ | .relisted _ _ | .deleteSnapshot _ _ | .finish _ | .crash | .arrive _ _ | .vanish _ => isTrue trivial

instance (a : Action) : Decidable (Creates a) := by
  cases a <;> unfold Creates <;> infer_instance

instance (a : Action) : Decidable (Truthful a) := by
  unfold Truthful
  split <;> infer_instance

def Task.cleans : Task → Bool
  | .cleaning _ => true
  | _ => false

def orderly (w : World) (a : Action) : Bool :=
  decide (Starts w a) && (!decide (Creates a) || w.tasks.values.all fun x => !x.cleans) && decide (Truthful a)

theorem of_orderly (h : orderly w a = true) : Starts w a ∧ Quiet w a ∧ Truthful a := by
  simp only [orderly, Bool.and_eq_true, decide_eq_true_eq, Bool.or_eq_true] at h
  obtain ⟨⟨hstarts, hquiet⟩, htruth⟩ := h
  refine ⟨hstarts, ?_, htruth⟩
  rintro ⟨t, c, htask⟩ hcreates
  have hall := hquiet.resolve_left (by simpa using hcreates)
  have hno := List.all_eq_true.mp hall _ (PyDict.mem_values.mpr ⟨t, htask⟩)
  cases hno

def exampleOwner : Ownership :=
  ⟨"run".toList, "attempt".toList, "task".toList, "experiment".toList, "session".toList, "policy".toList⟩

def exampleEntry (id : String) : Entry := ⟨.sandbox, id.toList, exampleOwner⟩

def exampleCreate (t : ℕ) (id : String) (written : ℕ) (ending : Ending) : List Action :=
  [.create t exampleOwner, .created t (.created id.toList), .append t written ending]

def tornAndCleaned : List Action :=
  exampleCreate 0 "vm-1" (exampleEntry "vm-1").line.length .returned ++
    [.snapshot 1 exampleOwner, .snapshotted 1 (some "snap-1".toList),
      .append 1 (Entry.line ⟨.snapshot, "snap-1".toList, exampleOwner⟩).length .returned] ++
    exampleCreate 2 "vm-2" (exampleEntry "vm-2").line.length .raised ++ exampleCreate 3 "vm-3" 30 .raised ++
    [.cleanup 4 "task".toList, .listed 4 true, .poolStep 4 0 .ok, .poolStep 4 0 .ok, .poolStep 4 1 .ok,
      .poolStep 4 1 .ok, .poolStep 4 2 .ok, .poolStep 4 2 .ok, .joined 4, .relisted 4 true, .deleteSnapshot 4 .ok]

theorem start_empty : Start {} := ⟨rfl, rfl, rfl, rfl, nofun⟩

theorem owned_resources_kept_torn :
    let w := (trace (guarded orderly (next fun _ => [])) {} tornAndCleaned).1
    Named (fun _ => []) w .sandbox "task".toList "vm-2".toList ∧ (∀ e ∈ w.acked, e.id ≠ "vm-2".toList) ∧
      (∃ found, sandboxIds (fun _ => []) none w.journal = some found ∧ "vm-1".toList ∈ found) ∧
      ∃ w', next (fun _ => []) w (.finish 4) = some (w', .cleaned "task".toList []) ∧
        NoneOwned (fun _ => []) w' "task".toList ∧ Deleted (fun _ => []) w' "task".toList [] [] := by
  intro w
  have hrun : Run ((system fun _ => []).restrict fun w l => Starts w l.1 ∧ Quiet w l.1 ∧ Truthful l.1) {}
      (trace (guarded orderly (next fun _ => [])) {} tornAndCleaned).2 w := by
    refine (run_guarded Start (next fun _ => []) orderly {} tornAndCleaned).mono ?_
    rintro s l t ⟨hstep, hok⟩
    exact ⟨hstep, of_orderly hok⟩
  have hstarts : Run ((system fun _ => []).restrict fun w l => Starts w l.1) {}
      (trace (guarded orderly (next fun _ => [])) {} tornAndCleaned).2 w := by
    refine hrun.mono ?_
    rintro s l t ⟨hstep, hok, -⟩
    exact ⟨hstep, hok⟩
  have hjournal : (ids (fun _ => []) Kind.sandbox.field (some "task".toList) w.journal).map
      (fun found => decide ("vm-2".toList ∈ found)) = some true := by decide +kernel
  obtain ⟨found, hfound, hmem⟩ := Option.map_eq_some_iff.mp hjournal
  refine ⟨.inl ⟨found, hfound, by simpa using hmem⟩, by decide +kernel, ?_, ?_⟩
  · exact (owned_resources_kept start_empty).1 _ _ hstarts (exampleEntry "vm-1") (by decide +kernel) none (.inl rfl)
  · have hfinish : (next (fun _ => []) w (.finish 4)).map Prod.snd = some (.cleaned "task".toList []) := by
      decide +kernel
    obtain ⟨⟨w', ev⟩, hstep, rfl⟩ := Option.map_eq_some_iff.mp hfinish
    refine ⟨w', hstep, ?_⟩
    exact (owned_resources_kept start_empty).2 _ w w' (.finish 4) _ [] hrun trivial (fun _ h => h) trivial hstep

def tornBetween : List Action :=
  exampleCreate 0 "vm-1" 30 .raised ++ exampleCreate 1 "vm-2" (exampleEntry "vm-2").line.length .returned

theorem owned_resource_forgotten :
    ¬∀ (ls : List (Action × Event)) (w : World), Run (system fun _ => []) {} ls w → ∀ e ∈ w.acked, ∀ uid : Option Text,
      (uid = none ∨ uid = some e.ownership.taskUid) →
        ∃ found, ids (fun _ => []) e.kind.field uid w.journal = some found ∧ e.id ∈ found := by
  intro h
  have hacked : exampleEntry "vm-2" ∈ (trace (next fun _ => []) {} tornBetween).1.acked := by decide +kernel
  obtain ⟨found, hfound, hmem⟩ := h _ _ (run_trace Start (next fun _ => []) {} tornBetween) _ hacked none (.inl rfl)
  have hnone : ids (fun _ => []) Kind.sandbox.field none (trace (next fun _ => []) {} tornBetween).1.journal =
      some [] := by
    decide +kernel
  rw [show (exampleEntry "vm-2").kind.field = Kind.sandbox.field from rfl, hnone] at hfound
  obtain rfl := Option.some.inj hfound
  cases hmem

end ClawBox.Cube
