import ClawBox.Events.Writer
import Mathlib.Data.List.Nodup

namespace ClawBox.Events

open Transition
open Monitor (Thread)

def Item.write? : Item → Option Write
  | .row w _ _ => some w
  | _ => none

def writes (items : List Item) : List Write := items.filterMap Item.write?

@[simp] theorem writes_row (w : Write) (q p : ℤ) (items : List Item) :
    writes (.row w q p :: items) = w :: writes items := rfl

@[simp] theorem writes_barrier (b : Barrier) (items : List Item) : writes (.barrier b :: items) = writes items := rfl

@[simp] theorem writes_sentinel (items : List Item) : writes (.sentinel :: items) = writes items := rfl

@[simp] theorem writes_append (items items' : List Item) : writes (items ++ items') = writes items ++ writes items' :=
  List.filterMap_append

@[simp] theorem writes_nil : writes [] = [] := rfl

def Numbered (rows : List Row) : Prop := rows.map (·.sequence) = List.range rows.length

def InOrder (ws : List Write) : Prop := ws.Pairwise fun v w => v.producer = w.producer → v.index < w.index

def Contains (prior text : Text) (w : Write) : Prop :=
  ∃ rows rest, text = prior ++ render rows ++ rest ∧ Numbered rows ∧ w ∈ rows.map (·.write)

theorem render_append (rows rows' : List Row) : render (rows ++ rows') = render rows ++ render rows' :=
  List.flatMap_append

theorem Contains.append {prior text : Text} {w : Write} (h : Contains prior text w) (more : Text) :
    Contains prior (text ++ more) w := by
  obtain ⟨rows, rest, rfl, hn, hw⟩ := h
  exact ⟨rows, rest ++ more, by simp, hn, hw⟩

theorem Numbered.snoc {rows : List Row} (h : Numbered rows) (w : Write) (p d : ℤ) :
    Numbered (rows ++ [⟨w, rows.length, p, d⟩]) := by
  unfold Numbered at *
  rw [List.map_append, h, List.length_append, List.length_singleton, List.range_succ, List.map_singleton]

theorem InOrder.nodup {ws : List Write} (h : InOrder ws) : ws.Nodup := by
  refine List.Pairwise.imp ?_ h
  rintro v w hv rfl
  exact Nat.lt_irrefl _ (hv rfl)

def ahead : List Item → List Write
  | [] => []
  | .row w _ _ :: items => w :: ahead items
  | .barrier _ :: items => ahead items
  | .sentinel :: _ => []

theorem mem_ahead_append {w : Write} {items : List Item} (h : w ∈ ahead items) (items' : List Item) :
    w ∈ ahead (items ++ items') := by
  induction items with
  | nil => cases h
  | cons item items ih =>
    cases item with
    | row v q p =>
      rcases List.mem_cons.mp h with rfl | h
      · exact List.mem_cons_self
      · exact List.mem_cons_of_mem _ (ih h)
    | barrier b => exact ih h
    | sentinel => cases h

theorem mem_writes_of_ahead {w : Write} {items : List Item} (h : w ∈ ahead items) : w ∈ writes items := by
  induction items with
  | nil => cases h
  | cons item items ih =>
    cases item with
    | row v q p =>
      rcases List.mem_cons.mp h with rfl | h
      · exact List.mem_cons_self
      · exact List.mem_cons_of_mem _ (ih h)
    | barrier b => exact ih h
    | sentinel => cases h

theorem ahead_eq_writes {items : List Item} (h : .sentinel ∉ items) : ahead items = writes items := by
  induction items with
  | nil => rfl
  | cons item items ih =>
    have ih := ih fun hm => h (List.mem_cons_of_mem _ hm)
    cases item with
    | row v q p => simp [ahead, ih]
    | barrier b => simp [ahead, ih]
    | sentinel => simp at h

def Task.unput : Task → Option Write
  | .checkError w | .checkClosed w | .prepare w | .put w => some w
  | _ => none

namespace State

variable {prior : Text} {taken : List Row} {s t : State} {i : Thread}

def unsaved (s : State) : Text :=
  match s.writer with
  | .flushing _ => []
  | _ => render s.rows

structure Journal (prior : Text) (taken : List Row) (s : State) : Prop where
  numbered : Numbered taken
  sequence : s.sequence = taken.length
  text : s.error = false → s.file ++ s.buffer ++ s.unsaved = prior ++ render taken
  buffered : s.error = false → (∀ k, s.writer ≠ .flushing k) → s.buffer = []
  emptied : (∀ k, s.writer ≠ .flushing k ∧ s.writer ≠ .save k) → s.writer ≠ .get → s.rows = []

theorem Journal.file (h : Journal prior taken s) (he : s.error = false)
    (hw : ∀ k, s.writer ≠ .flushing k ∧ s.writer ≠ .save k) (hg : s.writer ≠ .get) :
    s.file = prior ++ render taken := by
  have htext := h.text he
  rw [h.buffered he fun k => (hw k).1] at htext
  have hrows := h.emptied hw hg
  have hun : s.unsaved = [] := by
    unfold unsaved
    split
    · rfl
    · rw [hrows]
      rfl
  rw [hun, List.append_nil, List.append_nil] at htext
  exact htext

theorem Journal.contains (h : Journal prior taken s) (he : s.error = false)
    (hw : ∀ k, s.writer ≠ .flushing k ∧ s.writer ≠ .save k) (hg : s.writer ≠ .get) {w : Write}
    (hmem : w ∈ taken.map (·.write)) : Contains prior s.file w :=
  ⟨taken, [], by rw [h.file he hw hg, List.append_nil], h.numbered, hmem⟩

def makes (s : State) : Action → List Row
  | .take delayNs _ =>
    match s.writer, s.pending with
    | .get, .row w _ preparedNs :: _ => [⟨w, s.sequence, preparedNs, delayNs⟩]
    | _, _ => []
  | _ => []

theorem Journal.save (h : Journal prior taken s) {k : Then} (hw : s.writer = .save k) (fails : Bool) (moved kept : ℕ) :
    Journal prior taken (s.save k fails moved kept) := by
  obtain ⟨hn, hs, htext, hbuf, hemp⟩ := h
  have hstage : ∀ j, k.stage ≠ .flushing j ∧ k.stage ≠ .save j := by cases k <;> simp [Then.stage]
  simp only [unsaved, hw] at htext
  unfold State.save
  split
  · rename_i he
    exact ⟨hn, hs, fun h => by simp [he] at h, fun h => by simp [he] at h, fun _ _ => rfl⟩
  split
  · rename_i he hr
    refine ⟨hn, hs, fun _ => ?_, fun _ h => by simp at h, fun h => by simp at h⟩
    have hr : s.rows = [] := List.isEmpty_iff.mp hr
    simpa [unsaved, hr, render] using htext (by simpa using he)
  split
  · exact ⟨hn, hs, fun h => by simp [streamFails] at h, fun h => by simp [streamFails] at h, fun _ _ => rfl⟩
  · rename_i he _ _
    refine ⟨hn, hs, fun _ => ?_, fun _ h => by simp at h, fun h => by simp at h⟩
    simp only [unsaved, List.append_nil, List.append_assoc, List.take_append_drop]
    simpa using htext (by simpa using he)

theorem Journal.streamFlush (h : Journal prior taken s) {k : Then} (hw : s.writer = .flushing k) (fails : Bool)
    (moved kept : ℕ) : Journal prior taken (s.streamFlush k fails moved kept) := by
  obtain ⟨hn, hs, htext, hbuf, hemp⟩ := h
  simp only [unsaved, hw] at htext
  unfold State.streamFlush
  split
  · exact ⟨hn, hs, fun h => by simp [streamFails] at h, fun h => by simp [streamFails] at h, fun _ _ => rfl⟩
  · refine ⟨hn, hs, fun he => ?_, fun _ _ => rfl, fun _ _ => rfl⟩
    cases k <;> simpa [unsaved, Then.stage, render] using htext he

theorem Journal.streamClose (h : Journal prior taken s) (hw : s.writer = .closing) (fails : Bool)
    (moved kept : ℕ) : Journal prior taken (s.streamClose fails moved kept) := by
  have hrows := h.emptied (by simp [hw]) (by simp [hw])
  obtain ⟨hn, hs, htext, hbuf, hemp⟩ := h
  simp only [unsaved, hw, hrows, render, List.flatMap_nil, List.append_nil] at htext
  unfold State.streamClose
  split
  · exact ⟨hn, hs, fun h => by simp [streamFails] at h, fun h => by simp [streamFails] at h, fun _ _ => hrows⟩
  · refine ⟨hn, hs, fun he => ?_, fun _ _ => rfl, fun _ _ => hrows⟩
    simpa [unsaved, hrows, render] using htext he

theorem Journal.receive (h : Journal prior taken s) (hw : s.writer = .get) {item : Item} {rest : List Item}
    (hp : s.pending = item :: rest) (delayNs : ℤ) (late : Bool) :
    Journal prior (taken ++ s.makes (.take delayNs late)) (s.receive rest delayNs late item) := by
  obtain ⟨hn, hs, htext, hbuf, hemp⟩ := h
  simp only [unsaved, hw] at htext
  cases item with
  | row w queuedNs preparedNs =>
    simp only [makes, hw, hp, State.receive]
    have hget : ∀ P : Prop, [Decidable P] → ∀ k, (if P then WriterStage.save .loop else .get) ≠ .flushing k := by
      intro P _ k
      split <;> simp
    refine ⟨by simpa [hs] using hn.snoc w preparedNs delayNs, by simp [hs], fun he => ?_,
      fun he _ => hbuf he (by simp [hw]), ?_⟩
    · have hun : ∀ u : State, (∀ k, u.writer ≠ .flushing k) → u.unsaved = render u.rows := by
        intro u hu
        unfold unsaved
        split
        · rename_i k hk
          exact absurd hk (hu k)
        · rfl
      rw [hun _ fun k => hget _ k]
      simp only [render_append, ← List.append_assoc]
      rw [htext he]
    · intro h₁ h₂
      dsimp only at h₁ h₂
      split at h₂
      · rename_i hc
        exact absurd (if_pos hc) (h₁ .loop).2
      · exact absurd rfl h₂
  | barrier b =>
    simp only [makes, hw, hp, List.append_nil, State.receive]
    exact ⟨hn, hs, fun he => by simpa [unsaved] using htext he, fun he _ => hbuf he (by simp [hw]),
      fun h => by simp at h⟩
  | sentinel =>
    simp only [makes, hw, hp, List.append_nil, State.receive]
    exact ⟨hn, hs, fun he => by simpa [unsaved] using htext he, fun he _ => hbuf he (by simp [hw]),
      fun h => by simp at h⟩

theorem Journal.writer (h : Journal prior taken s) {a : Action} (ha : s.writePending s.writer a = some t) :
    Journal prior (taken ++ s.makes a) t := by
  unfold writePending at ha
  split at ha
  · rename_i hw
    split at ha
    · cases ha
    · rename_i hp
      cases ha
      exact h.receive hw hp _ _
  · rename_i hw
    cases ha
    simp only [makes, List.append_nil]
    split
    · exact h
    · exact ⟨h.numbered, h.sequence, fun he => by simpa [unsaved, hw] using h.text he,
        fun he _ => h.buffered he (by simp [hw]), fun h => by simp at h⟩
  · rename_i hw
    cases ha
    simp only [makes, List.append_nil]
    exact h.save hw _ _ _
  · rename_i hw
    cases ha
    simp only [makes, List.append_nil]
    exact h.streamFlush hw _ _ _
  · rename_i hw
    cases ha
    have hrows := h.emptied (by simp [hw]) (by simp [hw])
    simp only [makes, List.append_nil]
    exact ⟨h.numbered, h.sequence, fun he => by simpa [unsaved, hw] using h.text he,
      fun he _ => h.buffered he (by simp [hw]), fun _ _ => hrows⟩
  · rename_i hw
    cases ha
    simp only [makes, List.append_nil]
    exact h.streamClose hw _ _ _
  · cases ha

structure Frame (s t : State) : Prop where
  file : t.file = s.file
  buffer : t.buffer = s.buffer
  rows : t.rows = s.rows
  sequence : t.sequence = s.sequence
  error : t.error = s.error
  writer : t.writer = s.writer
  events : t.events = s.events

theorem Frame.begin {a : Action} (ha : s.begin i a = some t) : Frame s t := by
  unfold State.begin at ha
  split at ha <;> cases ha <;> constructor <;> rfl

theorem Frame.go {raises : Bool} {q p : ℤ} {k : Task} (ha : s.go i raises q p k = some t) : Frame s t := by
  cases k <;> simp only [State.go, Option.ite_none_right_eq_some, Option.some.injEq, reduceCtorEq] at ha
  case flushLock | flushWait | flushJoin | closeLock | closeJoin =>
    obtain ⟨-, rfl⟩ := ha
    constructor <;> rfl
  case flushRead | flushCheck | closeTest | closeCheck =>
    subst ha
    split <;> constructor <;> rfl
  all_goals
    subst ha
    constructor <;> rfl

theorem Journal.frame (h : Journal prior taken s) (f : Frame s t) : Journal prior taken t := by
  obtain ⟨hn, hs, htext, hbuf, hemp⟩ := h
  have hun : t.unsaved = s.unsaved := by simp only [unsaved, f.writer, f.rows]
  constructor
  · exact hn
  · rw [f.sequence, hs]
  · rw [f.error, f.file, f.buffer, hun]
    exact htext
  · rw [f.error, f.writer, f.buffer]
    exact hbuf
  · rw [f.writer, f.rows]
    exact hemp

def queued (taken : List Row) (s : State) : List Write := taken.map (·.write) ++ writes s.pending

structure Ordered (taken : List Row) (s : State) : Prop where
  sorted : InOrder (s.queued taken)
  issued : ∀ w ∈ s.queued taken, w.index < s.calls w.producer
  fresh : ∀ i w, (s.tasks i).unput = some w →
    w.producer = i ∧ w.index < s.calls i ∧ ∀ v ∈ s.queued taken, v.producer = i → v.index < w.index

theorem Ordered.quiet {taken' : List Row} (h : Ordered taken s) (hq : t.queued taken' = s.queued taken)
    (hc : t.calls = s.calls) (ht : ∀ j, (t.tasks j).unput = none ∨ (t.tasks j).unput = (s.tasks j).unput) :
    Ordered taken' t := by
  constructor
  · rw [hq]
    exact h.sorted
  · rw [hq, hc]
    exact h.issued
  · intro j w hj
    rw [hq, hc]
    rcases ht j with hn | he
    · rw [hn] at hj
      cases hj
    · exact h.fresh j w (he ▸ hj)

theorem queued_writer {a : Action} (ha : s.writePending s.writer a = some t) :
    t.queued (taken ++ s.makes a) = s.queued taken := by
  unfold writePending at ha
  split at ha
  · rename_i hw
    split at ha
    · cases ha
    · rename_i item rest hp
      cases ha
      cases item <;> simp [makes, hw, hp, queued, State.receive]
  all_goals cases ha
  · simp only [makes, List.append_nil]
    split <;> rfl
  · simp only [makes, List.append_nil, queued]
    unfold State.save
    split_ifs <;> rfl
  · simp only [makes, List.append_nil, queued]
    unfold State.streamFlush
    split_ifs <;> rfl
  · simp only [makes, List.append_nil, queued]
  · simp only [makes, List.append_nil, queued]
    unfold State.streamClose
    split_ifs <;> rfl

theorem Ordered.put (h : Ordered taken s) {w : Write} (hi : s.tasks i = .put w) (q p : ℤ) :
    Ordered taken ((s.enqueue (.row w q p)).setTask i (.recheck w)) := by
  obtain ⟨hprod, hcall, hlast⟩ := h.fresh i w (by rw [hi]; rfl)
  have hq : State.queued taken ((s.enqueue (.row w q p)).setTask i (.recheck w)) = s.queued taken ++ [w] := by
    simp [queued, setTask, enqueue]
  constructor
  · rw [hq]
    refine List.pairwise_append.mpr ⟨h.sorted, List.pairwise_singleton _ _, ?_⟩
    intro v hv w' hw' hp
    obtain rfl := List.mem_singleton.mp hw'
    exact hlast v hv (hp.trans hprod)
  · rw [hq]
    intro v hv
    rcases List.mem_append.mp hv with hv | hv
    · exact h.issued v hv
    · obtain rfl := List.mem_singleton.mp hv
      rw [hprod]
      exact hcall
  · intro j v hj
    rw [hq]
    by_cases hji : j = i
    · subst hji
      simp [setTask, Task.unput] at hj
    · have hj' : (s.tasks j).unput = some v := by simpa [setTask, enqueue, Function.update_apply, hji] using hj
      obtain ⟨h₁, h₂, h₃⟩ := h.fresh j v hj'
      refine ⟨h₁, h₂, ?_⟩
      intro u hu huj
      rcases List.mem_append.mp hu with hu | hu
      · exact h₃ u hu huj
      · obtain rfl := List.mem_singleton.mp hu
        exact absurd (huj.symm.trans hprod) hji

theorem Ordered.begin (h : Ordered taken s) {a : Action} (ha : s.begin i a = some t) : Ordered taken t := by
  unfold State.begin at ha
  split at ha <;> cases ha
  · rename_i payload
    constructor
    · exact h.sorted
    · intro w hw
      have := h.issued w hw
      simp only [setTask, Function.update_apply]
      split
      · rename_i hp
        rw [hp] at this
        omega
      · exact this
    · intro j w hj
      by_cases hji : j = i
      · subst hji
        simp only [setTask, Function.update_self, Task.unput, Option.some.injEq] at hj
        subst hj
        refine ⟨rfl, by simp [setTask], ?_⟩
        intro v hv hp
        have := h.issued v hv
        rwa [hp] at this
      · have hj' : (s.tasks j).unput = some w := by simpa [setTask, Function.update_apply, hji] using hj
        obtain ⟨h₁, h₂, h₃⟩ := h.fresh j w hj'
        exact ⟨h₁, by simpa [setTask, Function.update_apply, hji] using h₂, h₃⟩
  all_goals
    refine h.quiet rfl rfl fun j => ?_
    by_cases hji : j = i
    · subst hji
      simp [setTask, Task.unput]
    · simp [setTask, hji]

theorem unput_setTask {k : Task} (hk : k.unput = none ∨ k.unput = (s.tasks i).unput) (j : Thread) :
    ((s.setTask i k).tasks j).unput = none ∨ ((s.setTask i k).tasks j).unput = (s.tasks j).unput := by
  by_cases hji : j = i
  · subst hji
    simpa [setTask] using hk
  · simp [setTask, hji]

theorem Ordered.go (h : Ordered taken s) {raises : Bool} {q p : ℤ} (ha : s.go i raises q p (s.tasks i) = some t) :
    Ordered taken t := by
  cases hk : s.tasks i <;>
    simp only [State.go, hk, Option.ite_none_right_eq_some, Option.some.injEq, reduceCtorEq] at ha
  case put w =>
    subst ha
    exact h.put hk q p
  case flushLock | flushWait | flushJoin | closeLock | closeJoin =>
    obtain ⟨-, rfl⟩ := ha
    exact h.quiet rfl rfl (unput_setTask (.inl rfl))
  case flushRead | flushCheck | closeTest | closeCheck =>
    subst ha
    split <;> exact h.quiet rfl rfl (unput_setTask (.inl rfl))
  case checkError | checkClosed | prepare | recheck =>
    subst ha
    refine h.quiet rfl rfl (unput_setTask ?_)
    rw [hk]
    split <;> simp [Task.unput]
  case flushPut | closePut =>
    subst ha
    refine h.quiet ?_ rfl (unput_setTask (.inl rfl))
    simp [queued, setTask, enqueue, release]
  case returning =>
    subst ha
    exact h.quiet rfl rfl (unput_setTask (.inl rfl))

def stopped (s : State) : Bool :=
  match s.writer with
  | .save .stop | .flushing .stop | .closing | .finished => true
  | _ => false

def Kept (taken : List Row) (s : State) (w : Write) : Prop :=
  w ∈ taken.map (·.write) ∨ s.stopped = false ∧ w ∈ ahead s.pending

structure Ahead (taken : List Row) (s : State) : Prop where
  returned : ∀ w ∈ s.returned, Kept taken s w
  returning : ∀ i w, s.tasks i = .returning w → Kept taken s w
  recheck : ∀ i w, s.tasks i = .recheck w → s.closed = false → Kept taken s w
  opened : s.closed = false → .sentinel ∉ s.pending ∧ s.stopped = false ∧ ∀ i, s.tasks i ≠ .closePut

theorem Kept.frame {w : Write} (h : Kept taken s w) (f : Frame s t) (items : List Item)
    (hp : t.pending = s.pending ++ items) :
    Kept taken t w := by
  rcases h with h | ⟨hs, h⟩
  · exact .inl h
  · refine .inr ⟨by simpa only [stopped, f.writer] using hs, ?_⟩
    rw [hp]
    exact mem_ahead_append h items

theorem Kept.writer {w : Write} (h : Kept taken s w) {a : Action} (ha : s.writePending s.writer a = some t) :
    Kept (taken ++ s.makes a) t w := by
  rcases h with h | ⟨hs, h⟩
  · left
    rw [List.map_append]
    exact List.mem_append_left _ h
  unfold writePending at ha
  split at ha
  · rename_i hw
    split at ha
    · cases ha
    · rename_i item rest hp
      cases ha
      rw [hp] at h
      cases item with
      | row v q p =>
        rcases List.mem_cons.mp h with rfl | h
        · exact .inl (by simp [makes, hw, hp])
        · refine .inr ⟨?_, h⟩
          simp only [stopped, State.receive]
          split_ifs <;> rfl
      | barrier b => exact .inr ⟨rfl, h⟩
      | sentinel => cases h
  all_goals cases ha
  · right
    split
    · exact ⟨hs, h⟩
    · exact ⟨rfl, h⟩
  · rename_i k _ _ _ hw
    have hk : k ≠ .stop := by
      rintro rfl
      simp [stopped, hw] at hs
    refine .inr ⟨?_, ?_⟩
    · cases k with
      | stop => exact absurd rfl hk
      | loop | set b =>
        unfold State.save
        split_ifs <;> rfl
    · unfold State.save
      split_ifs <;> exact h
  · rename_i k _ _ _ hw
    have hk : k ≠ .stop := by
      rintro rfl
      simp [stopped, hw] at hs
    refine .inr ⟨?_, ?_⟩
    · cases k with
      | stop => exact absurd rfl hk
      | loop | set b =>
        unfold State.streamFlush
        split_ifs <;> rfl
    · unfold State.streamFlush
      split_ifs <;> exact h
  · exact .inr ⟨rfl, h⟩
  · rename_i hw
    simp [stopped, hw] at hs

structure Apart (s t : State) : Prop where
  tasks : t.tasks = s.tasks
  closed : t.closed = s.closed
  calls : t.calls = s.calls
  returned : t.returned = s.returned
  flushes : t.flushes = s.flushes
  closeReturned : t.closeReturned = s.closeReturned
  pending : t.pending <:+ s.pending
  file : ∃ text, t.file = s.file ++ text
  error : t.error = false → s.error = false

theorem Apart.writer {a : Action} (ha : s.writePending s.writer a = some t) : Apart s t := by
  unfold writePending at ha
  split at ha
  · split at ha
    · cases ha
    · rename_i item rest hp
      cases ha
      have hsuffix : rest <:+ s.pending := hp ▸ List.suffix_cons item rest
      cases item <;> exact ⟨rfl, rfl, rfl, rfl, rfl, rfl, hsuffix, ⟨[], by simp [receive]⟩, id⟩
  all_goals cases ha
  · split <;> exact ⟨rfl, rfl, rfl, rfl, rfl, rfl, List.suffix_rfl, ⟨[], by simp⟩, id⟩
  · unfold State.save
    split_ifs
    · exact ⟨rfl, rfl, rfl, rfl, rfl, rfl, List.suffix_rfl, ⟨[], by simp⟩, id⟩
    · exact ⟨rfl, rfl, rfl, rfl, rfl, rfl, List.suffix_rfl, ⟨[], by simp⟩, id⟩
    · exact ⟨rfl, rfl, rfl, rfl, rfl, rfl, List.suffix_rfl, ⟨_, rfl⟩, fun h => by cases h⟩
    · exact ⟨rfl, rfl, rfl, rfl, rfl, rfl, List.suffix_rfl, ⟨_, rfl⟩, id⟩
  · unfold State.streamFlush
    split_ifs
    · exact ⟨rfl, rfl, rfl, rfl, rfl, rfl, List.suffix_rfl, ⟨_, rfl⟩, fun h => by cases h⟩
    · exact ⟨rfl, rfl, rfl, rfl, rfl, rfl, List.suffix_rfl, ⟨_, rfl⟩, id⟩
  · exact ⟨rfl, rfl, rfl, rfl, rfl, rfl, List.suffix_rfl, ⟨[], by simp⟩, id⟩
  · unfold State.streamClose
    split_ifs
    · exact ⟨rfl, rfl, rfl, rfl, rfl, rfl, List.suffix_rfl, ⟨_, rfl⟩, fun h => by cases h⟩
    · exact ⟨rfl, rfl, rfl, rfl, rfl, rfl, List.suffix_rfl, ⟨_, rfl⟩, id⟩

theorem stage_writer {a : Action} (ha : s.writePending s.writer a = some t) :
    t.writer = s.writer ∨ (s.writer = .get ∧ t.writer = .save .loop) ∨
    (∃ b rest, s.writer = .get ∧ s.pending = .barrier b :: rest ∧ t.writer = .save (.set b)) ∨
    (∃ rest, s.writer = .get ∧ s.pending = .sentinel :: rest ∧ t.writer = .save .stop) ∨
    (∃ k, s.writer = .save k ∧ (t.writer = .flushing k ∨ t.error = true ∧ t.writer = k.stage)) ∨
    (∃ k, s.writer = .flushing k ∧ t.writer = k.stage) ∨ (∃ b, s.writer = .setting b ∧ t.writer = .get) ∨
    (s.writer = .closing ∧ t.writer = .finished) := by
  unfold writePending at ha
  split at ha
  · rename_i hw
    split at ha
    · cases ha
    · rename_i item rest hp
      cases ha
      cases item with
      | row w q p =>
        rw [hw]
        simp only [receive]
        split_ifs <;> simp
      | barrier b => exact .inr (.inr (.inl ⟨b, rest, hw, hp, rfl⟩))
      | sentinel => exact .inr (.inr (.inr (.inl ⟨rest, hw, hp, rfl⟩)))
  all_goals
    rename_i hw
    cases ha
  · split
    · exact .inl rfl
    · exact .inr (.inl ⟨hw, rfl⟩)
  · refine .inr (.inr (.inr (.inr (.inl ⟨_, hw, ?_⟩))))
    unfold State.save
    split_ifs with he
    · exact .inr ⟨he, rfl⟩
    · exact .inl rfl
    · exact .inr ⟨rfl, rfl⟩
    · exact .inl rfl
  · refine .inr (.inr (.inr (.inr (.inr (.inl ⟨_, hw, ?_⟩)))))
    unfold State.streamFlush
    split_ifs <;> rfl
  · exact .inr (.inr (.inr (.inr (.inr (.inr (.inl ⟨_, hw, rfl⟩))))))
  · refine .inr (.inr (.inr (.inr (.inr (.inr (.inr ⟨hw, ?_⟩))))))
    unfold State.streamClose
    split_ifs <;> rfl

theorem stopped_writer {a : Action} (ha : s.writePending s.writer a = some t) (hs : s.stopped = false)
    (hp : .sentinel ∉ s.pending) : t.stopped = false := by
  rcases stage_writer ha with h | ⟨-, h⟩ | ⟨b, rest, -, -, h⟩ | ⟨rest, -, hq, -⟩ | ⟨k, hk, h⟩ | ⟨k, hk, h⟩ | ⟨b, -, h⟩ |
    ⟨hk, -⟩
  · simpa only [stopped, h] using hs
  · simp only [stopped, h]
  · simp only [stopped, h]
  · simp [hq] at hp
  · cases k <;> rcases h with h | ⟨-, h⟩ <;> simp_all [stopped, Then.stage]
  · cases k <;> simp_all [stopped, Then.stage]
  · simp only [stopped, h]
  · simp [stopped, hk] at hs

theorem Ahead.writer (h : Ahead taken s) {a : Action} (ha : s.writePending s.writer a = some t) :
    Ahead (taken ++ s.makes a) t := by
  have f := Apart.writer ha
  constructor
  · rw [f.returned]
    exact fun w hw => (h.returned w hw).writer ha
  · rw [f.tasks]
    exact fun i w hi => (h.returning i w hi).writer ha
  · rw [f.tasks, f.closed]
    exact fun i w hi hc => (h.recheck i w hi hc).writer ha
  · rw [f.closed, f.tasks]
    intro hc
    obtain ⟨hp, hs, hk⟩ := h.opened hc
    exact ⟨fun hm => hp (f.pending.mem hm), stopped_writer ha hs hp, hk⟩

theorem Ahead.producer {k : Task} {items : List Item} (h : Ahead taken s) (f : Frame s t)
    (hp : t.pending = s.pending ++ items) (hsent : .sentinel ∈ items → t.closed = true)
    (hret : ∀ w ∈ t.returned, w ∈ s.returned ∨ Kept taken t w) (htasks : t.tasks = Function.update s.tasks i k)
    (hclosed : t.closed = false → s.closed = false) (hreturning : ∀ w, k = .returning w → Kept taken t w)
    (hrecheck : ∀ w, k = .recheck w → t.closed = false → Kept taken t w) (hput : k = .closePut → t.closed = true) :
    Ahead taken t := by
  constructor
  · intro w hw
    rcases hret w hw with hw | hw
    · exact (h.returned w hw).frame f _ hp
    · exact hw
  · intro j w hj
    rw [htasks, Function.update_apply] at hj
    split at hj
    · exact hreturning w hj
    · exact (h.returning j w hj).frame f _ hp
  · intro j w hj hc
    rw [htasks, Function.update_apply] at hj
    split at hj
    · exact hrecheck w hj hc
    · exact (h.recheck j w hj (hclosed hc)).frame f _ hp
  · intro hc
    obtain ⟨hq, hs, hk⟩ := h.opened (hclosed hc)
    refine ⟨?_, by simpa only [stopped, f.writer] using hs, ?_⟩
    · rw [hp, List.mem_append]
      rintro (hm | hm)
      · exact hq hm
      · rw [hsent hm] at hc
        cases hc
    · intro j hj
      rw [htasks, Function.update_apply] at hj
      split at hj
      · rw [hput hj] at hc
        cases hc
      · exact hk j hj

theorem Ahead.begin (h : Ahead taken s) {a : Action} (ha : s.begin i a = some t) : Ahead taken t := by
  have f := Frame.begin ha
  unfold State.begin at ha
  split at ha <;> cases ha
  all_goals exact h.producer f (List.append_nil _).symm nofun (fun w hw => .inl hw) rfl id nofun nofun nofun

theorem Ahead.go (h : Ahead taken s) {raises : Bool} {q p : ℤ} (ha : s.go i raises q p (s.tasks i) = some t) :
    Ahead taken t := by
  have f := Frame.go ha
  cases hk : s.tasks i <;>
    simp only [State.go, hk, Option.ite_none_right_eq_some, Option.some.injEq, reduceCtorEq] at ha
  case put w =>
    subst ha
    refine h.producer f rfl (by simp) (fun w hw => .inl hw) rfl id nofun ?_ nofun
    -- the queue holds no sentinel while the writer is open
    rintro v hv hc
    cases hv
    obtain ⟨hp, hs, -⟩ := h.opened hc
    refine .inr ⟨hs, ?_⟩
    change w ∈ ahead (s.pending ++ [.row w q p])
    rw [ahead_eq_writes (by simp [hp])]
    simp
  case recheck w =>
    subst ha
    refine h.producer f (List.append_nil _).symm nofun (fun w hw => .inl hw) rfl id ?_ ?_ ?_
    · intro v hv
      split at hv
      · cases hv
      · rename_i hc
        cases hv
        exact (h.recheck i _ hk (by simpa using hc)).frame f [] (List.append_nil _).symm
    · intro v hv
      split at hv <;> cases hv
    · intro hv
      split at hv <;> cases hv
  case returning w =>
    subst ha
    refine h.producer f (List.append_nil _).symm nofun ?_ rfl id nofun nofun nofun
    intro v hv
    rcases List.mem_append.mp hv with hv | hv
    · exact .inl hv
    · obtain rfl := List.mem_singleton.mp hv
      exact .inr ((h.returning i v hk).frame f [] (List.append_nil _).symm)
  case flushLock | flushWait | flushJoin | closeLock | closeJoin =>
    obtain ⟨-, rfl⟩ := ha
    exact h.producer f (List.append_nil _).symm nofun (fun w hw => .inl hw) rfl id nofun nofun nofun
  case flushPut =>
    subst ha
    exact h.producer f rfl (by simp) (fun w hw => .inl hw) rfl id nofun nofun nofun
  case closePut =>
    subst ha
    refine h.producer f rfl ?_ (fun w hw => .inl hw) rfl id nofun nofun nofun
    intro _
    cases hc : s.closed with
    | true => exact hc
    | false => exact absurd hk ((h.opened hc).2.2 i)
  case closeTest =>
    split at ha <;> subst ha
    · exact h.producer f (List.append_nil _).symm nofun (fun w hw => .inl hw) rfl id nofun nofun nofun
    · exact h.producer f (List.append_nil _).symm nofun (fun w hw => .inl hw) rfl nofun nofun nofun fun _ => rfl
  case flushRead | flushCheck | closeCheck =>
    split at ha <;> subst ha
    all_goals exact h.producer f (List.append_nil _).symm nofun (fun w hw => .inl hw) rfl id nofun nofun nofun
  case checkError | checkClosed | prepare =>
    subst ha
    refine h.producer f (List.append_nil _).symm nofun (fun w hw => .inl hw) rfl id ?_ ?_ ?_ <;> split <;> nofun

def asked : Task → Option (List Write)
  | .flushLock before | .flushRead before | .flushPut before | .flushJoin before => some before
  | _ => none

structure Barred (prior : Text) (taken : List Row) (s : State) : Prop where
  queue : ∀ pre b post, s.pending = pre ++ .barrier b :: post →
    ∀ w ∈ b.before, w ∈ taken.map (·.write) ∨ w ∈ writes pre
  saving : ∀ b, s.writer = .save (.set b) ∨ s.writer = .flushing (.set b) → ∀ w ∈ b.before, w ∈ taken.map (·.write)
  setting : ∀ b, s.writer = .setting b → s.error = false → ∀ w ∈ b.before, Contains prior s.file w
  events : ∀ b ∈ s.events, s.error = false → ∀ w ∈ b.before, Contains prior s.file w
  asked : ∀ i before, asked (s.tasks i) = some before → ∀ w ∈ before, w ∈ s.returned
  checks : ∀ i before, s.tasks i = .flushCheck before → s.error = false → ∀ w ∈ before, Contains prior s.file w
  flushes : ∀ f ∈ s.flushes, ∀ w ∈ f.1, Contains prior f.2 w
  joined : ∀ i, s.tasks i = .closeCheck → s.writer = .finished
  closes : s.closeReturned = true → s.writer = .finished ∧ s.error = false

theorem finished_writer {a : Action} (ha : s.writePending s.writer a = some t) : s.writer ≠ .finished := by
  intro hw
  rw [hw] at ha
  cases a <;> cases ha

theorem queue_writer {a : Action} (ha : s.writePending s.writer a = some t) :
    (t.pending = s.pending ∧ s.makes a = []) ∨ ∃ item, s.writer = .get ∧ s.pending = item :: t.pending ∧
      (s.makes a).map (·.write) = writes [item] := by
  unfold writePending at ha
  split at ha
  · rename_i hw
    split at ha
    · cases ha
    · rename_i item rest hp
      cases ha
      refine .inr ⟨item, hw, ?_⟩
      cases item <;> simp [makes, hw, hp, receive]
  all_goals cases ha
  all_goals left
  · constructor
    · split <;> rfl
    · rfl
  · refine ⟨?_, rfl⟩
    unfold State.save
    split_ifs <;> rfl
  · refine ⟨?_, rfl⟩
    unfold State.streamFlush
    split_ifs <;> rfl
  · exact ⟨rfl, rfl⟩
  · refine ⟨?_, rfl⟩
    unfold State.streamClose
    split_ifs <;> rfl

theorem Barred.queue_step (h : Barred prior taken s) {a : Action} (ha : s.writePending s.writer a = some t)
    (pre : List Item) (b : Barrier) (post : List Item) (hp : t.pending = pre ++ .barrier b :: post) :
    ∀ w ∈ b.before, w ∈ (taken ++ s.makes a).map (·.write) ∨ w ∈ writes pre := by
  intro w hw
  rw [List.map_append, List.mem_append]
  rcases queue_writer ha with ⟨hq, hm⟩ | ⟨item, -, hq, hm⟩
  · rcases h.queue pre b post (hq ▸ hp) w hw with h | h
    · exact .inl (.inl h)
    · exact .inr h
  · rw [hm]
    rcases h.queue (item :: pre) b post (by rw [hq, hp]; rfl) w hw with h | h
    · exact .inl (.inl h)
    · rw [← List.singleton_append, writes_append, List.mem_append] at h
      rcases h with h | h
      · exact .inl (.inr h)
      · exact .inr h

theorem Barred.saving_step (h : Barred prior taken s) {a : Action} (ha : s.writePending s.writer a = some t)
    (b : Barrier) (hb : t.writer = .save (.set b) ∨ t.writer = .flushing (.set b)) :
    ∀ w ∈ b.before, w ∈ (taken ++ s.makes a).map (·.write) := by
  intro w hw
  rw [List.map_append, List.mem_append]
  left
  rcases stage_writer ha with hk | ⟨-, hk⟩ | ⟨c, rest, -, hq, hk⟩ | ⟨rest, -, -, hk⟩ | ⟨k, hs, hk⟩ | ⟨k, -, hk⟩ |
    ⟨c, -, hk⟩ | ⟨-, hk⟩
  · exact h.saving b (hk ▸ hb) w hw
  · simp [hk] at hb
  · rw [hk] at hb
    have hcb : c = b := by simpa using hb
    subst hcb
    rcases h.queue [] c rest hq w hw with h | h
    · exact h
    · cases h
  · simp [hk] at hb
  · rcases hk with hk | ⟨-, hk⟩
    · rw [hk] at hb
      have hkb : k = .set b := by simpa using hb
      subst hkb
      exact h.saving b (.inl hs) w hw
    · cases k <;> simp [hk, Then.stage] at hb
  · cases k <;> simp [hk, Then.stage] at hb
  · simp [hk] at hb
  · simp [hk] at hb

theorem Barred.setting_step (h : Barred prior taken s) (j : Journal prior (taken ++ s.makes a) t)
    (ha : s.writePending s.writer a = some t) (b : Barrier) (hb : t.writer = .setting b) (he : t.error = false) :
    ∀ w ∈ b.before, Contains prior t.file w := by
  intro w hw
  apply j.contains he (by simp [hb]) (by simp [hb])
  rw [List.map_append, List.mem_append]
  left
  rcases stage_writer ha with hk | ⟨-, hk⟩ | ⟨c, rest, -, hq, hk⟩ | ⟨rest, -, -, hk⟩ | ⟨k, hs, hk⟩ | ⟨k, hs, hk⟩ |
    ⟨c, -, hk⟩ | ⟨-, hk⟩
  · -- the writer thread does not stay in this stage
    rw [hb] at hk
    rw [← hk] at ha
    cases a <;> cases ha
    simp at hb
  · simp [hk] at hb
  · simp [hk] at hb
  · simp [hk] at hb
  · rcases hk with hk | ⟨ht, -⟩
    · simp [hk] at hb
    · rw [ht] at he
      cases he
  · have hkb : k = .set b := by cases k <;> simp_all [Then.stage]
    subst hkb
    exact h.saving b (.inr hs) w hw
  · simp [hk] at hb
  · simp [hk] at hb

theorem events_writer {a : Action} (ha : s.writePending s.writer a = some t) :
    t.events = s.events ∨ ∃ b, s.writer = .setting b ∧ t.events = s.events ++ [b] := by
  unfold writePending at ha
  split at ha
  · split at ha
    · cases ha
    · rename_i item rest hp
      cases ha
      cases item <;> exact .inl rfl
  all_goals
    rename_i hw
    cases ha
  · split <;> exact .inl rfl
  · unfold State.save
    split_ifs <;> exact .inl rfl
  · unfold State.streamFlush
    split_ifs <;> exact .inl rfl
  · exact .inr ⟨_, hw, rfl⟩
  · unfold State.streamClose
    split_ifs <;> exact .inl rfl

theorem Barred.writer (h : Barred prior taken s) {a : Action} (j : Journal prior (taken ++ s.makes a) t)
    (ha : s.writePending s.writer a = some t) : Barred prior (taken ++ s.makes a) t := by
  have f := Apart.writer ha
  obtain ⟨text, htext⟩ := f.file
  have hgrow : ∀ w, Contains prior s.file w → Contains prior t.file w := by
    intro w hw
    rw [htext]
    exact hw.append text
  constructor
  · exact h.queue_step ha
  · exact h.saving_step ha
  · exact h.setting_step j ha
  · intro b hb he w hw
    rcases events_writer ha with hev | ⟨c, hc, hev⟩
    · exact hgrow w (h.events b (hev ▸ hb) (f.error he) w hw)
    · rw [hev] at hb
      rcases List.mem_append.mp hb with hb | hb
      · exact hgrow w (h.events b hb (f.error he) w hw)
      · obtain rfl := List.mem_singleton.mp hb
        exact hgrow w (h.setting b hc (f.error he) w hw)
  · rw [f.tasks, f.returned]
    exact h.asked
  · rw [f.tasks]
    exact fun i before hi he w hw => hgrow w (h.checks i before hi (f.error he) w hw)
  · rw [f.flushes]
    exact h.flushes
  · rw [f.tasks]
    intro i hi
    exact absurd (h.joined i hi) (finished_writer ha)
  · rw [f.closeReturned]
    intro hc
    exact absurd (h.closes hc).1 (finished_writer ha)

theorem Barred.producer {k : Task} (h : Barred prior taken s) (f : Frame s t)
    (hqueue : ∀ pre b post, t.pending = pre ++ .barrier b :: post →
      ∀ w ∈ b.before, w ∈ taken.map (·.write) ∨ w ∈ writes pre)
    (htasks : t.tasks = Function.update s.tasks i k) (hret : s.returned ⊆ t.returned)
    (hasked : ∀ before, State.asked k = some before → ∀ w ∈ before, w ∈ t.returned)
    (hcheck : ∀ before, k = .flushCheck before → s.error = false → ∀ w ∈ before, Contains prior s.file w)
    (hflushes : ∀ r ∈ t.flushes, r ∈ s.flushes ∨ ∀ w ∈ r.1, Contains prior r.2 w)
    (hjoined : k = .closeCheck → s.writer = .finished)
    (hcloses : t.closeReturned = true → s.closeReturned = true ∨ s.writer = .finished ∧ s.error = false) :
    Barred prior taken t := by
  constructor
  · exact hqueue
  · rw [f.writer]
    exact h.saving
  · rw [f.writer, f.error, f.file]
    exact h.setting
  · rw [f.events, f.error, f.file]
    exact h.events
  · intro j before hj w hw
    rw [htasks, Function.update_apply] at hj
    split at hj
    · exact hasked before hj w hw
    · exact hret (h.asked j before hj w hw)
  · rw [f.error, f.file]
    intro j before hj
    rw [htasks, Function.update_apply] at hj
    split at hj
    · exact hcheck before hj
    · exact h.checks j before hj
  · intro r hr
    rcases hflushes r hr with hr | hr
    · exact h.flushes r hr
    · exact hr
  · intro j hj
    rw [f.writer]
    rw [htasks, Function.update_apply] at hj
    split at hj
    · exact hjoined hj
    · exact h.joined j hj
  · rw [f.writer, f.error]
    intro hc
    rcases hcloses hc with hc | hc
    · exact h.closes hc
    · exact hc

theorem Barred.queue_snoc (h : Barred prior taken s) (item : Item)
    (hitem : ∀ b, item = .barrier b → ∀ w ∈ b.before, w ∈ taken.map (·.write) ∨ w ∈ writes s.pending) :
    ∀ pre b post, s.pending ++ [item] = pre ++ .barrier b :: post →
      ∀ w ∈ b.before, w ∈ taken.map (·.write) ∨ w ∈ writes pre := by
  intro pre b post hp
  rcases List.eq_nil_or_concat post with rfl | ⟨post', last, rfl⟩
  · obtain ⟨rfl, he⟩ := List.append_inj' hp rfl
    exact hitem b (List.singleton_injective he)
  · have hp' : s.pending ++ [item] = (pre ++ .barrier b :: post') ++ [last] := by simpa using hp
    exact h.queue pre b post' (List.append_inj' hp' rfl).1

theorem Barred.begin (h : Barred prior taken s) {a : Action} (ha : s.begin i a = some t) : Barred prior taken t := by
  have f := Frame.begin ha
  unfold State.begin at ha
  split at ha <;> cases ha
  · exact h.producer f h.queue rfl (List.Subset.refl _) nofun nofun (fun r hr => .inl hr) nofun .inl
  · refine h.producer f h.queue rfl (List.Subset.refl _) ?_ nofun (fun r hr => .inl hr) nofun .inl
    rintro before hb w hw
    cases hb
    exact hw
  · exact h.producer f h.queue rfl (List.Subset.refl _) nofun nofun (fun r hr => .inl hr) nofun .inl

theorem Kept.mem_queued {w : Write} (h : Kept taken s w) : w ∈ taken.map (·.write) ∨ w ∈ writes s.pending := by
  rcases h with h | ⟨-, h⟩
  · exact .inl h
  · exact .inr (mem_writes_of_ahead h)

theorem Barred.go (h : Barred prior taken s) (j : Journal prior taken s) (d : Ahead taken s) {raises : Bool} {q p : ℤ}
    (ha : s.go i raises q p (s.tasks i) = some t) : Barred prior taken t := by
  have f := Frame.go ha
  have hsame : ∀ before, State.asked (s.tasks i) = some before → ∀ w ∈ before, w ∈ s.returned := h.asked i
  cases hk : s.tasks i <;>
    simp only [State.go, hk, Option.ite_none_right_eq_some, Option.some.injEq, reduceCtorEq] at ha hsame
  case checkError | checkClosed | prepare | recheck =>
    split at ha <;> subst ha
    all_goals exact h.producer f h.queue rfl (List.Subset.refl _) nofun nofun (fun r hr => .inl hr) nofun .inl
  case put w =>
    subst ha
    exact h.producer f (h.queue_snoc _ nofun) rfl (List.Subset.refl _) nofun nofun (fun r hr => .inl hr) nofun .inl
  case returning =>
    subst ha
    exact h.producer f h.queue rfl (List.subset_append_left _ _) nofun nofun (fun r hr => .inl hr) nofun .inl
  case flushLock =>
    obtain ⟨-, rfl⟩ := ha
    exact h.producer f h.queue rfl (List.Subset.refl _) hsame nofun (fun r hr => .inl hr) nofun .inl
  case flushRead =>
    split at ha <;> subst ha
    all_goals exact h.producer f h.queue rfl (List.Subset.refl _) hsame nofun (fun r hr => .inl hr) nofun .inl
  case flushPut before =>
    subst ha
    refine h.producer f (h.queue_snoc _ ?_) rfl (List.Subset.refl _) nofun nofun (fun r hr => .inl hr) nofun .inl
    rintro b hb w hw
    cases hb
    exact (d.returned w (hsame before rfl w hw)).mem_queued
  case flushWait b =>
    obtain ⟨hb, rfl⟩ := ha
    refine h.producer f h.queue rfl (List.Subset.refl _) nofun ?_ (fun r hr => .inl hr) nofun .inl
    rintro before hbefore he
    cases hbefore
    exact h.events b hb he
  case flushJoin before =>
    obtain ⟨hw, rfl⟩ := ha
    refine h.producer f h.queue rfl (List.Subset.refl _) nofun ?_ (fun r hr => .inl hr) nofun .inl
    rintro before hbefore he w hw'
    cases hbefore
    apply j.contains he (by simp [hw]) (by simp [hw])
    rcases d.returned w (hsame _ rfl w hw') with hm | ⟨hs, -⟩
    · exact hm
    · simp [stopped, hw] at hs
  case flushCheck before =>
    split at ha <;> subst ha
    · exact h.producer f h.queue rfl (List.Subset.refl _) nofun nofun (fun r hr => .inl hr) nofun .inl
    · rename_i he
      refine h.producer f h.queue rfl (List.Subset.refl _) nofun nofun ?_ nofun .inl
      intro r hr
      rcases List.mem_append.mp hr with hr | hr
      · exact .inl hr
      · obtain rfl := List.mem_singleton.mp hr
        exact .inr (h.checks i before hk (by simpa using he))
  case closeLock =>
    obtain ⟨-, rfl⟩ := ha
    exact h.producer f h.queue rfl (List.Subset.refl _) nofun nofun (fun r hr => .inl hr) nofun .inl
  case closeTest =>
    split at ha <;> subst ha
    all_goals exact h.producer f h.queue rfl (List.Subset.refl _) nofun nofun (fun r hr => .inl hr) nofun .inl
  case closePut =>
    subst ha
    exact h.producer f (h.queue_snoc _ nofun) rfl (List.Subset.refl _) nofun nofun (fun r hr => .inl hr) nofun .inl
  case closeJoin =>
    obtain ⟨hw, rfl⟩ := ha
    exact h.producer f h.queue rfl (List.Subset.refl _) nofun nofun (fun r hr => .inl hr) (fun _ => hw) .inl
  case closeCheck =>
    split at ha <;> subst ha
    · exact h.producer f h.queue rfl (List.Subset.refl _) nofun nofun (fun r hr => .inl hr) nofun .inl
    · rename_i he
      refine h.producer f h.queue rfl (List.Subset.refl _) nofun nofun (fun r hr => .inl hr) nofun ?_
      exact fun _ => .inr ⟨h.joined i hk, by simpa using he⟩

structure Inv (prior : Text) (taken : List Row) (s : State) : Prop where
  journal : Journal prior taken s
  ordered : Ordered taken s
  ahead : Ahead taken s
  barred : Barred prior taken s

theorem inv_start (prior : Text) : Inv prior [] { file := prior } where
  journal := ⟨rfl, rfl, fun _ => by simp [unsaved, render], fun _ _ => rfl, fun _ _ => rfl⟩
  ordered := ⟨List.Pairwise.nil, nofun, nofun⟩
  ahead := ⟨nofun, nofun, nofun, fun _ => ⟨List.not_mem_nil, rfl, nofun⟩⟩
  barred := by
    refine ⟨?_, by simp, nofun, nofun, nofun, nofun, nofun, nofun, nofun⟩
    intro pre b post hp
    simp at hp

theorem Inv.next (h : Inv prior taken s) {l : Option Thread × Action} (hl : State.next s l = some (t, ())) :
    ∃ taken', Inv prior taken' t := by
  unfold State.next at hl
  split at hl
  · rename_i a
    obtain ⟨u, hu, hut⟩ := Option.map_eq_some_iff.mp hl
    obtain ⟨rfl, -⟩ := Prod.mk.inj hut
    have j := h.journal.writer hu
    refine ⟨_, j, h.ordered.quiet (queued_writer hu) (Apart.writer hu).calls ?_, h.ahead.writer hu,
      h.barred.writer j hu⟩
    rw [(Apart.writer hu).tasks]
    exact fun _ => .inr rfl
  · obtain ⟨u, hu, hut⟩ := Option.map_eq_some_iff.mp hl
    obtain ⟨rfl, -⟩ := Prod.mk.inj hut
    exact ⟨taken, h.journal.frame (.go hu), h.ordered.go hu, h.ahead.go hu, h.barred.go h.journal h.ahead hu⟩
  · split at hl
    · obtain ⟨u, hu, hut⟩ := Option.map_eq_some_iff.mp hl
      obtain ⟨rfl, -⟩ := Prod.mk.inj hut
      exact ⟨taken, h.journal.frame (.begin hu), h.ordered.begin hu, h.ahead.begin hu, h.barred.begin hu⟩
    · cases hl

theorem Reachable.inv (h : Reachable (system prior) s) : ∃ taken, Inv prior taken s := by
  refine Reachable.invariant (I := fun s => ∃ taken, Inv prior taken s) ?_ ?_ h
  · rintro s rfl
    exact ⟨[], inv_start prior⟩
  · rintro s l t ⟨taken, hs⟩ hl
    exact hs.next hl

def Complete (prior : Text) (s : State) : Prop :=
  ∃ rows, s.file = prior ++ render rows ∧ Numbered rows ∧ InOrder (rows.map (·.write)) ∧
    ∀ w ∈ s.returned, (rows.map (·.write)).count w = 1

theorem Inv.complete (h : Inv prior taken s) (hw : s.writer = .finished) (he : s.error = false) : Complete prior s := by
  have hsorted : InOrder (taken.map (·.write)) := (List.pairwise_append.mp h.ordered.sorted).1
  refine ⟨taken, h.journal.file he (by simp [hw]) (by simp [hw]), h.journal.numbered, hsorted, ?_⟩
  intro w hr
  rcases h.ahead.returned w hr with hm | ⟨hs, -⟩
  · exact List.count_eq_one_of_mem hsorted.nodup hm
  · simp [stopped, hw] at hs

theorem event_log_complete (prior : Text) (s : State) (h : Reachable (system prior) s) :
    (s.closeReturned = true → Complete prior s) ∧ (s.writer = .finished → s.error = false → Complete prior s) ∧
      ∀ r ∈ s.flushes, ∀ w ∈ r.1, Contains prior r.2 w := by
  obtain ⟨taken, hinv⟩ := Reachable.inv h
  refine ⟨?_, hinv.complete, hinv.barred.flushes⟩
  intro hc
  obtain ⟨hw, he⟩ := hinv.barred.closes hc
  exact hinv.complete hw he

def racingClose : List (Option Thread × Action) :=
  let go (i : Thread) : Option Thread × Action := (some i, .go false 5 1)
  let ok : Option Thread × Action := (none, .stream false 0 0)
  [(some 1, .write ['a', 'b']), go 1, go 1, go 1, go 1, go 1, go 1, (some 3, .flush), go 3, go 3, go 3,
    (none, .take 2 false), (none, .take 2 false), ok, ok, (none, .setEvent), go 3, go 3,
    (some 1, .write ['c', 'd']), go 1, go 1, go 1, go 1, (some 2, .close), go 2, go 2, go 1, go 2,
    (none, .take 2 false), (none, .take 2 false), ok, ok, ok, go 2, go 2]

theorem racing_close_complete :
    ∃ s, Reachable (system []) s ∧ s.closeReturned = true ∧ s.returned = [⟨1, 0, ['a', 'b']⟩] ∧
      s.flushes.map (·.1) = [s.returned] ∧ Complete [] s := by
  have hr := (Reachable.start (T := system []) rfl).trace racingClose
  have hc : (trace State.next { file := [] } racingClose).1.closeReturned = true := by decide +kernel
  exact ⟨_, hr, hc, by decide +kernel, by decide +kernel, (event_log_complete [] _ hr).1 hc⟩

end State

end ClawBox.Events
