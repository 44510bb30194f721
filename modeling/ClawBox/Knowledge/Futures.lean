import ClawBox.Knowledge.Owner
import Mathlib.Data.List.Perm.Basic
import Mathlib.Data.List.Range

namespace ClawBox.Knowledge

open Transition

namespace Thread

def held : Thread → List ℕ
  | .popped ident | .released ident => [ident]
  | .failing left => left
  | .setting ident left => ident :: left
  | _ => []

def due : Thread → ℕ
  | .popped _ => 1
  | .failing left | .setting _ left => left.length
  | _ => 0

end Thread

namespace State

variable {s t : State} {e : Option Event}

def slots (s : State) : List ℕ := s.pending ++ (s.reader.held ++ (s.sender.held ++ s.resolved))

structure Futures (s : State) : Prop where
  idents : s.accepted.map Job.ident = List.range' 1 s.sequence
  slots : s.slots.Perm (s.accepted.map Job.ident)
  balance : s.permits + s.entering.length + s.pending.length + s.reader.due + s.sender.due = s.limit
  failed : s.error = true → s.pending = []
  released : s.overReleased = false

structure SameClient (s t : State) : Prop where
  accepted : t.accepted = s.accepted
  sequence : t.sequence = s.sequence
  slots : t.slots = s.slots
  permits : t.permits = s.permits
  entering : t.entering = s.entering
  pending : t.pending = s.pending
  due : t.reader.due + t.sender.due = s.reader.due + s.sender.due
  limit : t.limit = s.limit
  error : t.error = s.error
  overReleased : t.overReleased = s.overReleased

theorem Futures.same (h : s.Futures) (ht : SameClient s t) : t.Futures where
  idents := by rw [ht.accepted, ht.sequence, h.idents]
  slots := by rw [ht.slots, ht.accepted]; exact h.slots
  balance := by
    have hb := h.balance
    have hd := ht.due
    rw [ht.permits, ht.entering, ht.pending, ht.limit]
    omega
  failed := by rw [ht.error, ht.pending]; exact h.failed
  released := ht.overReleased.trans h.released

theorem Futures.start {limit : ℕ} : Futures { limit := limit, permits := limit } where
  idents := rfl
  slots := List.Perm.refl _
  balance := by simp [Thread.due]
  failed := by simp
  released := rfl

theorem release_of_lt (h : s.permits < s.limit) : s.release = { s with permits := s.permits + 1 } := if_pos h

theorem settleStep_spec {th th' : Thread} (h : s.settleStep th = some (t, th'))
    (hdue : 0 < th.due → s.permits < s.limit) :
    t = { s with permits := t.permits, resolved := t.resolved } ∧ t.permits + th'.due = s.permits + th.due ∧
      (th'.held ++ t.resolved).Perm (th.held ++ s.resolved) := by
  cases th with
  | idle => cases h
  | ended => cases h
  | popped ident =>
    have hlt := hdue Nat.one_pos
    simp only [settleStep, release_of_lt hlt] at h
    cases h
    exact ⟨rfl, rfl, .refl _⟩
  | released ident =>
    cases h
    exact ⟨rfl, rfl, .refl _⟩
  | setting ident left =>
    cases h
    exact ⟨rfl, rfl, List.perm_middle⟩
  | failing left =>
    cases left with
    | nil =>
      cases h
      exact ⟨rfl, rfl, .refl _⟩
    | cons ident left =>
      have hlt := hdue (Nat.succ_pos _)
      simp only [settleStep, release_of_lt hlt] at h
      cases h
      refine ⟨rfl, ?_, .refl _⟩
      simp only [Thread.due, List.length_cons]
      omega

theorem Futures.senderStep (h : s.Futures) {th : Thread} (hs : s.settleStep s.sender = some (t, th)) :
    ({ t with sender := th } : State).Futures := by
  have hb := h.balance
  obtain ⟨ht, hp, hperm⟩ := settleStep_spec hs (fun hdue => by omega)
  rw [ht]
  refine ⟨h.idents, ?_, ?_, h.failed, h.released⟩
  · exact ((hperm.append_left _).append_left _).trans h.slots
  · dsimp only
    omega

theorem Futures.readerStep (h : s.Futures) {th : Thread} (hs : s.settleStep s.reader = some (t, th)) :
    ({ t with reader := th } : State).Futures := by
  have hb := h.balance
  obtain ⟨ht, hp, hperm⟩ := settleStep_spec hs (fun hdue => by omega)
  rw [ht]
  refine ⟨h.idents, ?_, ?_, h.failed, h.released⟩
  · have hswap : ∀ (a b c : List ℕ), (a ++ (b ++ c)).Perm (b ++ (a ++ c)) := fun a b c => by
      rw [← List.append_assoc, ← List.append_assoc]
      exact List.perm_append_comm.append_right c
    refine List.Perm.trans ?_ h.slots
    refine List.Perm.append_left _ ?_
    exact ((hswap _ _ _).trans (hperm.append_left _)).trans (hswap _ _ _)
  · dsimp only
    omega

theorem Futures.acquire (h : s.Futures) (kind : Kind) (hp : 0 < s.permits) :
    ({ s with permits := s.permits - 1, entering := kind :: s.entering } : State).Futures := by
  refine ⟨h.idents, h.slots, ?_, h.failed, h.released⟩
  have hb := h.balance
  simp only [List.length_cons]
  omega

theorem Futures.enter (h : s.Futures) {kind : Kind} (hk : kind ∈ s.entering) :
    (({ s with entering := s.entering.erase kind } : State).enter kind).Futures := by
  have hb := h.balance
  have hlen := List.length_erase_of_mem hk
  have hpos := List.length_pos_of_mem hk
  unfold State.enter
  dsimp only
  split_ifs with hclosed
  · rw [release_of_lt (by dsimp only; omega)]
    refine ⟨h.idents, h.slots, ?_, h.failed, h.released⟩
    dsimp only
    omega
  · refine ⟨?_, ?_, ?_, ?_, h.released⟩
    · simp only [List.map_append, List.map_cons, List.map_nil, h.idents]
      rw [List.range'_concat]
      simp [Nat.add_comm]
    · simp only [List.map_append, List.map_cons, List.map_nil]
      refine List.Perm.trans ?_ (h.slots.append_right [s.sequence + 1])
      unfold State.slots
      rw [List.append_assoc, List.append_assoc]
      exact List.perm_append_comm.append_left _
    · simp only [List.length_append, List.length_cons, List.length_nil]
      omega
    · intro herror
      exact absurd (.inl herror) hclosed

theorem Futures.receive (h : s.Futures) {ident : ℕ} {rest : List ℕ} (hr : s.reader = .idle) (hi : ident ∈ s.pending) :
    ({ s with toClient := rest, pending := s.pending.erase ident, reader := .popped ident } : State).Futures := by
  have hb := h.balance
  have hslots := h.slots
  have hlen := List.length_erase_of_mem hi
  have hpos := List.length_pos_of_mem hi
  simp only [State.slots, hr, Thread.held, List.nil_append, Thread.due] at hslots hb
  refine ⟨h.idents, ?_, ?_, ?_, h.released⟩
  · refine List.Perm.trans ?_ hslots
    exact List.perm_middle.trans ((List.perm_cons_erase hi).symm.append_right _)
  · simp only [Thread.due]
    omega
  · intro herror
    rw [h.failed herror] at hi
    cases hi

theorem Futures.sendFails (h : s.Futures) (hs : s.sender = .idle) (rest : List (Option Job)) :
    ({ s.fail with outbox := rest, sender := .failing s.pending } : State).Futures := by
  have hb := h.balance
  have hslots := h.slots
  simp only [State.slots, hs, Thread.held, List.nil_append, Thread.due] at hslots hb
  refine ⟨h.idents, ?_, ?_, fun _ => rfl, h.released⟩
  · refine List.Perm.trans ?_ hslots
    simp only [State.slots, fail, Thread.held, List.nil_append]
    rw [← List.append_assoc, ← List.append_assoc]
    exact List.perm_append_comm.append_right _
  · simp only [fail, Thread.due, List.length_nil]
    omega

theorem Futures.receiveFails (h : s.Futures) (hr : s.reader = .idle) :
    ({ s.fail with reader := .failing s.pending } : State).Futures := by
  have hb := h.balance
  have hslots := h.slots
  simp only [State.slots, hr, Thread.held, List.nil_append, Thread.due] at hslots hb
  refine ⟨h.idents, hslots, ?_, fun _ => rfl, h.released⟩
  simp only [fail, Thread.due, List.length_nil]
  omega

theorem run_same {job : Job} {outcome : Outcome} (h : s.run job outcome = some t) : SameClient s t := by
  unfold State.run at h
  split at h
  · cases h
    exact ⟨rfl, rfl, rfl, rfl, rfl, rfl, rfl, rfl, rfl, rfl⟩
  · split at h
    · cases h
      exact ⟨rfl, rfl, rfl, rfl, rfl, rfl, rfl, rfl, rfl, rfl⟩
    · cases h

theorem SameClient.trans {u : State} (h : SameClient s t) (h' : SameClient t u) : SameClient s u :=
  ⟨h'.accepted.trans h.accepted, h'.sequence.trans h.sequence, h'.slots.trans h.slots, h'.permits.trans h.permits,
    h'.entering.trans h.entering, h'.pending.trans h.pending, h'.due.trans h.due, h'.limit.trans h.limit,
    h'.error.trans h.error, h'.overReleased.trans h.overReleased⟩

theorem loop_same {outcome : Outcome} (h : s.loop outcome = some (t, e)) : SameClient s t := by
  have hframe : ∀ (o : Process) (l : List Job), SameClient s { s with process := o, taken := l } :=
    fun o l => ⟨rfl, rfl, rfl, rfl, rfl, rfl, rfl, rfl, rfl, rfl⟩
  have hrun : ∀ (o : Process) (l : List Job) (job : Job) (f : State → State × Option Event), (∀ u, (f u).1 = u) →
      ((({ s with process := o, taken := l } : State).run job outcome).map f) = some (t, e) → SameClient s t := by
    intro o l job f hf hm
    obtain ⟨u, hu, he⟩ := Option.map_eq_some_iff.mp hm
    have ht : u = t := (hf u).symm.trans (congrArg Prod.fst he)
    exact (hframe o l).trans (ht ▸ run_same hu)
  unfold State.loop at h
  split_ifs at h
  split at h
  · cases h
    exact ⟨rfl, rfl, rfl, rfl, rfl, rfl, rfl, rfl, rfl, rfl⟩
  · split at h
    · cases h
    · cases h
      exact hframe _ _
    · exact hrun _ _ _ _ (fun _ => rfl) h
    · exact hrun _ _ _ _ (fun _ => rfl) h
    · split at h
      · cases h
        exact hframe _ _
      · exact hrun _ _ _ _ (fun _ => rfl) h
      · split_ifs at h
        · cases h
          exact hframe _ _
        · exact hrun _ _ _ _ (fun _ => rfl) h

theorem Futures.next (h : s.Futures) {a : Act} (hn : s.next a = some (t, e)) : t.Futures := by
  cases a with
  | acquire kind =>
    simp only [State.next] at hn
    split_ifs at hn with hp
    cases hn
    exact h.acquire kind hp
  | enter kind =>
    simp only [State.next] at hn
    split_ifs at hn with hk
    cases hn
    exact h.enter hk
  | send =>
    simp only [State.next] at hn
    split at hn
    · rename_i hs ho
      cases hn
      exact h.same ⟨rfl, rfl, by simp [State.slots, hs, Thread.held], rfl, rfl, rfl, by simp [hs, Thread.due], rfl, rfl,
        rfl⟩
    · rename_i job rest hs ho
      cases hn
      refine h.same ⟨rfl, rfl, ?_, rfl, rfl, rfl, ?_, rfl, rfl, rfl⟩
      · simp only [State.slots, hs]
        split_ifs <;> rfl
      · simp only [hs]
        split_ifs <;> rfl
    · cases hn
  | sendFails =>
    simp only [State.next] at hn
    split at hn
    · rename_i job rest hs ho
      split_ifs at hn
      cases hn
      exact h.sendFails hs rest
    · cases hn
  | receive =>
    simp only [State.next] at hn
    split at hn
    · rename_i ident rest hr hc
      split_ifs at hn with hi
      · cases hn
        exact h.receive hr hi
      · cases hn
        exact h.same ⟨rfl, rfl, rfl, rfl, rfl, rfl, rfl, rfl, rfl, rfl⟩
    · cases hn
  | receiveFails =>
    simp only [State.next] at hn
    split_ifs at hn with hr
    cases hn
    exact h.receiveFails hr.1
  | senderStep =>
    obtain ⟨⟨u, th⟩, hu, he⟩ := Option.map_eq_some_iff.mp hn
    cases he
    exact h.senderStep hu
  | readerStep =>
    obtain ⟨⟨u, th⟩, hu, he⟩ := Option.map_eq_some_iff.mp hn
    cases he
    exact h.readerStep hu
  | ownerReceive =>
    simp only [State.next] at hn
    split at hn
    · split_ifs at hn
      cases hn
      exact h.same ⟨rfl, rfl, rfl, rfl, rfl, rfl, rfl, rfl, rfl, rfl⟩
    · cases hn
  | ownerHears =>
    simp only [State.next] at hn
    split_ifs at hn
    cases hn
    exact h.same ⟨rfl, rfl, rfl, rfl, rfl, rfl, rfl, rfl, rfl, rfl⟩
  | loop outcome => exact h.same (loop_same hn)
  | written =>
    simp only [State.next] at hn
    split at hn
    · split_ifs at hn
      cases hn
      exact h.same ⟨rfl, rfl, rfl, rfl, rfl, rfl, rfl, rfl, rfl, rfl⟩
    · cases hn
  | exit =>
    cases hn
    exact h.same ⟨rfl, rfl, rfl, rfl, rfl, rfl, rfl, rfl, rfl, rfl⟩
  | disconnect =>
    cases hn
    exact h.same ⟨rfl, rfl, rfl, rfl, rfl, rfl, rfl, rfl, rfl, rfl⟩
  | stop =>
    simp only [State.next] at hn
    split_ifs at hn
    cases hn
    exact h.same ⟨rfl, rfl, rfl, rfl, rfl, rfl, rfl, rfl, rfl, rfl⟩

end State

end ClawBox.Knowledge
