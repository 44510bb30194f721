import ClawBox.Knowledge.Serial

namespace ClawBox.Knowledge

open Transition

namespace Thread

def serving : Thread → Bool
  | .idle | .popped _ | .released _ => true
  | _ => false

def receiving : Thread → Bool
  | .popped _ | .released _ => true
  | _ => false

end Thread

namespace State

variable {s t : State} {e : Option Event} {hand : List Job} {j : Job} {x : ℕ}

def unsent (s : State) : List Job := s.outbox.filterMap id

structure Owned (s : State) (hand : List Job) : Prop where
  lane : s.process.Lane hand s.taken s.answered
  line : ∃ rest, s.accepted = s.taken ++ (s.process.requests ++ (s.toOwner ++ rest)) ∧
    (s.sender = .idle ∨ s.broken = false → rest = s.unsent)
  last : ∀ i ∈ s.accepted.dropLast, i.kind ≠ .close
  closes : s.closing = false → ∀ i ∈ s.accepted, i.kind ≠ .close
  replied : ∀ i ∈ s.answered, i.ident ∈ s.pending → i.ident ∈ s.toClient
  sending : s.broken = false → s.sender = .idle ∨ s.closing = true ∧ s.unsent = []
  reading : s.broken = false → s.reader.serving = true
  sends : s.sender.receiving = false
  stops : none ∈ s.outbox → s.connected = false

theorem Owned.start {limit : ℕ} : Owned { limit := limit, permits := limit } [] where
  lane := by
    refine ⟨?_, ?_, ?_, ?_, ?_, ?_, ?_, ?_, ?_⟩ <;> simp [Process.tokens, Process.queue]
  line := ⟨[], rfl, fun _ => rfl⟩
  last := by simp
  closes := by simp
  replied := by simp
  sending _ := .inl rfl
  reading _ := rfl
  sends := rfl
  stops := by simp

theorem broken_eq_false : s.broken = false ↔ s.process.alive = true ∧ s.connected = true := by
  simp [broken]

theorem Owned.process (h : s.Owned hand) {o : Process} {taken answered : List Job} {toClient : List ℕ}
    {hand' : List Job} (hlane : o.Lane hand' taken answered) (halive : o.alive = true → s.process.alive = true)
    (hline : taken ++ o.requests = s.taken ++ s.process.requests)
    (hreplied : ∀ i ∈ answered, i.ident ∈ s.pending → i.ident ∈ toClient) :
    ({ s with process := o, taken := taken, answered := answered, toClient := toClient } : State).Owned hand' := by
  have hbroken : ({ s with process := o, taken := taken, answered := answered, toClient := toClient } : State).broken =
      false → s.broken = false := by
    intro hb
    obtain ⟨ha, hc⟩ := broken_eq_false.mp hb
    exact broken_eq_false.mpr ⟨halive ha, hc⟩
  refine ⟨hlane, ?_, h.last, h.closes, hreplied, fun hb => h.sending (hbroken hb), fun hb => h.reading (hbroken hb),
    h.sends, h.stops⟩
  obtain ⟨rest, heq, hrest⟩ := h.line
  refine ⟨rest, ?_, fun hc => hrest (hc.imp_right hbroken)⟩
  rw [heq, ← List.append_assoc, ← List.append_assoc, ← hline, List.append_assoc, List.append_assoc]

theorem Owned.taken_prefix (h : s.Owned hand) : ∃ rest, s.accepted = s.taken ++ rest := by
  obtain ⟨rest, heq, -⟩ := h.line
  exact ⟨_, heq⟩

theorem increasing (hf : s.Futures) : s.accepted.Pairwise fun i j => i.ident < j.ident := by
  have hp : (s.accepted.map Job.ident).Pairwise (· < ·) := by
    rw [hf.idents]
    exact List.pairwise_lt_range'
  exact List.pairwise_map.mp hp

theorem Owned.next_request (h : s.Owned []) (hf : s.Futures) {rest : List Message}
    (hin : s.process.inbox = .request j :: rest) :
    s.process.Taken s.taken s.answered j ∧
      s.taken ++ s.process.requests = s.taken ++ [j] ++ s.process.take.requests ∧ s.process.stopping = none := by
  have hreq : s.process.requests = j :: s.process.take.requests := by
    simp [Process.requests, Process.take, hin, Message.asked]
  obtain ⟨tail, heq, -⟩ := h.line
  have hinc := increasing hf
  rw [heq, hreq, List.pairwise_append] at hinc
  refine ⟨⟨h.lane, fun i hi => hinc.2.2 i hi j List.mem_cons_self⟩, ?_, ?_⟩
  · rw [hreq, List.append_assoc, List.singleton_append]
  · cases hs : s.process.stopping with
    | none => rfl
    | some c =>
      obtain ⟨hc, hclose⟩ := h.lane.stopped c hs
      refine absurd hclose (h.last c ?_)
      rw [heq, hreq, List.cons_append, List.dropLast_append_of_ne_nil (List.cons_ne_nil _ _)]
      exact List.mem_append_left _ hc

theorem requests_settle (o : Process) (k : Kind) :
    (o.settle k).requests = o.requests ∧ (o.settle k).alive = o.alive := by
  cases k with
  | close => exact ⟨rfl, rfl⟩
  | plain => exact ⟨rfl, rfl⟩
  | call session =>
    simp only [Process.settle, Process.release]
    split
    · exact ⟨by simp [Process.requests, Message.asked], rfl⟩
    · exact ⟨rfl, rfl⟩

theorem replied_append (h : s.Owned hand) {answered : List Job} (ha : ∀ i ∈ answered, i = j ∨ i ∈ s.answered) :
    ∀ i ∈ answered, i.ident ∈ s.pending → i.ident ∈ s.toClient ++ [j.ident] := by
  intro i hi hp
  rcases ha i hi with rfl | hi
  · exact List.mem_append_right _ (List.mem_singleton_self _)
  · exact List.mem_append_left _ (h.replied i hi hp)

theorem Owned.run (h : s.Owned [j]) (hj : j.kind = .call x) {outcome : Outcome} (hr : s.run j outcome = some t) :
    t.Owned [] := by
  cases outcome with
  | answer =>
    cases hr
    obtain ⟨hreq, halive⟩ := requests_settle s.process j.kind
    refine h.process (o := s.process.settle j.kind) ?_ (fun ha => halive ▸ ha) (by rw [hreq])
      (replied_append h fun i hi => List.mem_cons.mp hi)
    rw [hj]
    exact h.lane.release hj
  | suspend =>
    simp only [State.run, hj] at hr
    cases hr
    exact h.process h.lane.suspend id rfl h.replied

theorem Owned.take_token (h : s.Owned []) {m : Message} {rest : List Message} (hin : s.process.inbox = m :: rest)
    (hm : m.token = some j) (hasked : m.asked = none) : (s.withProcess s.process.take).Owned [j] := by
  refine h.process (h.lane.take_token hin hm) id ?_ h.replied
  simp [Process.requests, Process.take, hin, hasked]

theorem Owned.defer (h : s.Owned []) (hf : s.Futures) {rest : List Message}
    (hin : s.process.inbox = .request j :: rest) (hj : j.kind = .call x) (hx : x ∈ s.process.busy) :
    ((s.takeRequest j).withProcess (s.process.take.defer x j)).Owned [] := by
  obtain ⟨⟨hlane, hnew⟩, hline, -⟩ := h.next_request hf hin
  have htake : s.process.take.Taken s.taken s.answered j :=
    ⟨Process.tokens_perm (.of_eq (Process.tokens_take hin rfl [])) hlane (fun _ => rfl) rfl rfl, hnew⟩
  exact h.process (htake.defer hj hx) id hline.symm h.replied

theorem Owned.occupy (h : s.Owned []) (hf : s.Futures) {rest : List Message}
    (hin : s.process.inbox = .request j :: rest) (hj : j.kind = .call x) (hx : x ∉ s.process.busy) :
    ((s.takeRequest j).withProcess (s.process.take.occupy x)).Owned [j] := by
  obtain ⟨⟨hlane, hnew⟩, hline, -⟩ := h.next_request hf hin
  have htake : s.process.take.Taken s.taken s.answered j :=
    ⟨Process.tokens_perm (.of_eq (Process.tokens_take hin rfl [])) hlane (fun _ => rfl) rfl rfl, hnew⟩
  exact h.process (htake.occupy hj hx) id hline.symm h.replied

theorem Owned.plain (h : s.Owned []) (hf : s.Futures) {rest : List Message}
    (hin : s.process.inbox = .request j :: rest) (hj : j.kind = .plain) {outcome : Outcome}
    (hr : (s.takeRequest j).run j outcome = some t) : t.Owned [] := by
  obtain ⟨⟨hlane, hnew⟩, hline, -⟩ := h.next_request hf hin
  have htake : s.process.take.Taken s.taken s.answered j :=
    ⟨Process.tokens_perm (.of_eq (Process.tokens_take hin rfl [])) hlane (fun _ => rfl) rfl rfl, hnew⟩
  cases outcome with
  | answer =>
    cases hr
    refine h.process (o := s.process.take.settle j.kind) ?_ ?_ ?_ (replied_append h fun i hi => List.mem_cons.mp hi)
    · rw [hj]
      exact htake.plain (by simp [hj]) (by simp [hj])
    · rw [(requests_settle _ _).2]
      exact id
    · rw [(requests_settle _ _).1]
      exact hline.symm
  | suspend => simp [State.run, hj] at hr

theorem Owned.close (h : s.Owned []) (hf : s.Futures) {rest : List Message}
    (hin : s.process.inbox = .request j :: rest) (hj : j.kind = .close) :
    ((s.takeRequest j).withProcess { s.process.take with stopping := some j }).Owned [] := by
  obtain ⟨⟨hlane, hnew⟩, hline, hnone⟩ := h.next_request hf hin
  have htake : s.process.take.Taken s.taken s.answered j :=
    ⟨Process.tokens_perm (.of_eq (Process.tokens_take hin rfl [])) hlane (fun _ => rfl) rfl rfl, hnew⟩
  exact h.process (htake.close hj hnone) id hline.symm h.replied

inductive Pass (s : State) (outcome : Outcome) : State → Option Event → Prop
  | closed (j : Job) (hstop : s.process.stopping = some j) (hdrained : s.process.drained = true) :
    Pass s outcome ((s.reply j).withProcess { (s.reply j).process with alive := false }) (some (.closed j))
  | disconnect : Pass s outcome (s.withProcess { s.process with alive := false }) none
  | commit (j : Job) (rest : List Message) (t : State) (hin : s.process.inbox = .commit j :: rest)
      (hr : (s.withProcess s.process.take).run j outcome = some t) : Pass s outcome t (some (.resumed j))
  | continuation (j : Job) (rest : List Message) (t : State) (hin : s.process.inbox = .continuation j :: rest)
      (hr : (s.withProcess s.process.take).run j outcome = some t) : Pass s outcome t (some (.started j))
  | close (j : Job) (rest : List Message) (hin : s.process.inbox = .request j :: rest) (hj : j.kind = .close) :
    Pass s outcome ((s.takeRequest j).withProcess { s.process.take with stopping := some j }) none
  | plain (j : Job) (rest : List Message) (t : State) (hin : s.process.inbox = .request j :: rest)
      (hj : j.kind = .plain) (hr : (s.takeRequest j).run j outcome = some t) : Pass s outcome t (some (.started j))
  | defer (j : Job) (x : ℕ) (rest : List Message) (hin : s.process.inbox = .request j :: rest)
      (hj : j.kind = .call x) (hx : x ∈ s.process.busy) :
    Pass s outcome ((s.takeRequest j).withProcess (s.process.take.defer x j)) none
  | occupy (j : Job) (x : ℕ) (rest : List Message) (t : State) (hin : s.process.inbox = .request j :: rest)
      (hj : j.kind = .call x) (hx : x ∉ s.process.busy)
      (hr : ((s.takeRequest j).withProcess (s.process.take.occupy x)).run j outcome = some t) :
    Pass s outcome t (some (.started j))

theorem loop_pass {outcome : Outcome} (h : s.loop outcome = some (t, e)) : Pass s outcome t e := by
  unfold State.loop at h
  split_ifs at h
  split at h
  · rename_i job hstop hdrained
    cases h
    exact .closed job hstop hdrained
  · split at h
    · cases h
    · cases h
      exact .disconnect
    · rename_i job hin
      obtain ⟨rest, hin⟩ := List.head?_eq_some_iff.mp hin
      obtain ⟨u, hu, he⟩ := Option.map_eq_some_iff.mp h
      cases he
      exact .commit job rest _ hin hu
    · rename_i job hin
      obtain ⟨rest, hin⟩ := List.head?_eq_some_iff.mp hin
      obtain ⟨u, hu, he⟩ := Option.map_eq_some_iff.mp h
      cases he
      exact .continuation job rest _ hin hu
    · rename_i job hin
      obtain ⟨rest, hin⟩ := List.head?_eq_some_iff.mp hin
      split at h
      · rename_i hj
        cases h
        exact .close job rest hin hj
      · rename_i hj
        obtain ⟨u, hu, he⟩ := Option.map_eq_some_iff.mp h
        cases he
        exact .plain job rest _ hin hj hu
      · rename_i x hj
        split_ifs at h with hx
        · cases h
          exact .defer job x rest hin hj hx
        · obtain ⟨u, hu, he⟩ := Option.map_eq_some_iff.mp h
          cases he
          exact .occupy job x rest _ hin hj hx hu

theorem Owned.pass (h : s.Owned []) (hf : s.Futures) {outcome : Outcome} (hp : Pass s outcome t e) : t.Owned [] := by
  cases hp with
  | closed j hstop hdrained =>
    obtain ⟨-, hclose⟩ := h.lane.stopped j hstop
    refine h.process (o := { s.process.settle j.kind with alive := false }) ?_ (by simp) ?_
      (replied_append h fun i hi => List.mem_cons.mp hi)
    · rw [hclose]
      exact h.lane.closed hstop false
    · rw [hclose]
      rfl
  | disconnect =>
    refine h.process (o := { s.process with alive := false }) ?_ (by simp) rfl h.replied
    exact Process.tokens_perm (o := s.process) (.refl _) h.lane (fun _ => rfl) rfl rfl
  | commit j rest t hin hr =>
    have hmid := h.take_token hin (m := .commit j) rfl rfl
    obtain ⟨⟨x, hj⟩, -⟩ := hmid.lane.tokened j List.mem_cons_self
    exact hmid.run hj hr
  | continuation j rest t hin hr =>
    have hmid := h.take_token hin (m := .continuation j) rfl rfl
    obtain ⟨⟨x, hj⟩, -⟩ := hmid.lane.tokened j List.mem_cons_self
    exact hmid.run hj hr
  | close j rest hin hj => exact h.close hf hin hj
  | plain j rest t hin hj hr => exact h.plain hf hin hj hr
  | defer j x rest hin hj hx => exact h.defer hf hin hj hx
  | occupy j x rest t hin hj hx hr => exact (h.occupy hf hin hj hx).run hj hr

theorem unsent_append (s : State) (x : Option Job) :
    ({ s with outbox := s.outbox ++ [x] } : State).unsent = s.unsent ++ x.toList := by
  cases x <;> simp [unsent]

theorem ident_le (hf : s.Futures) {i : Job} (hi : i ∈ s.accepted) : i.ident ≤ s.sequence := by
  have hm := List.mem_map_of_mem (f := Job.ident) hi
  rw [hf.idents, List.mem_range'_1] at hm
  omega

theorem Owned.accepted_of_answered (h : s.Owned hand) {i : Job} (hi : i ∈ s.answered) : i ∈ s.accepted := by
  obtain ⟨rest, heq⟩ := h.taken_prefix
  rw [heq]
  exact List.mem_append_left _ (h.lane.done i hi)

theorem Owned.enter (h : s.Owned []) (hle : ∀ {i : Job}, i ∈ s.accepted → i.ident ≤ s.sequence) (kind : Kind) :
    (s.enter kind).Owned [] := by
  unfold State.enter
  split_ifs with hc
  · unfold State.release
    split_ifs
    · exact ⟨h.lane, h.line, h.last, h.closes, h.replied, h.sending, h.reading, h.sends, h.stops⟩
    · exact ⟨h.lane, h.line, h.last, h.closes, h.replied, h.sending, h.reading, h.sends, h.stops⟩
  · have hopen : s.closing = false := by
      simpa using fun hclosing => hc (.inr hclosing)
    have hno := h.closes hopen
    refine ⟨h.lane, ?_, ?_, ?_, ?_, ?_, h.reading, h.sends, ?_⟩
    · obtain ⟨rest, heq, hrest⟩ := h.line
      refine ⟨rest ++ [⟨s.sequence + 1, kind⟩], ?_, ?_⟩
      · simp only [heq, List.append_assoc]
      · intro hs
        rw [hrest hs]
        exact (unsent_append s (some ⟨s.sequence + 1, kind⟩)).symm
    · intro i hi
      rw [List.dropLast_concat] at hi
      exact hno i hi
    · intro hclosing i hi
      rcases List.mem_append.mp hi with hi | hi
      · exact hno i hi
      · rw [List.mem_singleton.mp hi]
        simpa using hclosing
    · intro i hi hp
      rcases List.mem_append.mp hp with hp | hp
      · exact h.replied i hi hp
      · have hlt := hle (h.accepted_of_answered hi)
        have he := List.mem_singleton.mp hp
        omega
    · intro hb
      rcases h.sending hb with hs | hs
      · exact .inl hs
      · rw [hopen] at hs
        cases hs.1
    · intro hm
      exact h.stops (by simpa using hm)

theorem settle_keeps {th th' : Thread} (h : s.settleStep th = some (t, th')) :
    (∃ p l o, t = { s with permits := p, resolved := l, overReleased := o }) ∧
      (th.serving = true → th'.serving = true) ∧ (th.receiving = false → th'.receiving = false ∧ th' ≠ .idle) := by
  have hrelease : ∃ p l o, s.release = { s with permits := p, resolved := l, overReleased := o } := by
    unfold State.release
    split_ifs
    · exact ⟨_, _, _, rfl⟩
    · exact ⟨_, _, _, rfl⟩
  cases th with
  | idle => cases h
  | ended => cases h
  | popped ident =>
    cases h
    exact ⟨hrelease, id, fun hr => (by cases hr)⟩
  | released ident =>
    cases h
    exact ⟨⟨_, _, _, rfl⟩, fun _ => rfl, fun hr => (by cases hr)⟩
  | setting ident left =>
    cases h
    exact ⟨⟨_, _, _, rfl⟩, fun hs => (by cases hs), fun _ => ⟨rfl, by simp⟩⟩
  | failing left =>
    cases left with
    | nil =>
      cases h
      exact ⟨⟨_, _, _, rfl⟩, fun hs => (by cases hs), fun _ => ⟨rfl, by simp⟩⟩
    | cons ident left =>
      cases h
      exact ⟨hrelease, fun hs => (by cases hs), fun _ => ⟨rfl, by simp⟩⟩

theorem Owned.senderStep (h : s.Owned []) {th : Thread} (hs : s.settleStep s.sender = some (t, th)) :
    ({ t with sender := th } : State).Owned [] := by
  obtain ⟨⟨p, l, o, rfl⟩, -, hsends⟩ := settle_keeps hs
  obtain ⟨hreceiving, hidle⟩ := hsends h.sends
  refine ⟨h.lane, ?_, h.last, h.closes, h.replied, ?_, h.reading, hreceiving, h.stops⟩
  · obtain ⟨rest, heq, hrest⟩ := h.line
    exact ⟨rest, heq, fun hc => hrest (.inr (hc.resolve_left hidle))⟩
  · intro hb
    rcases h.sending hb with hi | hc
    · rw [hi] at hs
      cases hs
    · exact .inr hc

theorem Owned.readerStep (h : s.Owned []) {th : Thread} (hs : s.settleStep s.reader = some (t, th)) :
    ({ t with reader := th } : State).Owned [] := by
  obtain ⟨⟨p, l, o, rfl⟩, hserving, -⟩ := settle_keeps hs
  exact ⟨h.lane, h.line, h.last, h.closes, h.replied, h.sending, fun hb => hserving (h.reading hb), h.sends, h.stops⟩

theorem Owned.send (h : s.Owned []) {job : Job} {rest : List (Option Job)} (hs : s.sender = .idle)
    (ho : s.outbox = some job :: rest) :
    ({ s with
      outbox := rest
      toOwner := s.toOwner ++ [job]
      sender := if job.kind = .close then .ended else .idle } : State).Owned [] := by
  obtain ⟨tail, heq, htail⟩ := h.line
  have hunsent : s.unsent = job :: rest.filterMap id := by simp [unsent, ho]
  rw [htail (.inl hs), hunsent] at heq
  refine ⟨h.lane, ⟨rest.filterMap id, ?_, fun _ => rfl⟩, h.last, h.closes, h.replied, ?_, h.reading, ?_, ?_⟩
  · simp only [heq, List.append_assoc, List.singleton_append]
  · intro _
    split_ifs with hclose
    · have hmem : job ∈ s.accepted := by simp [heq]
      refine .inr ⟨?_, ?_⟩
      · by_contra hopen
        exact h.closes (by simpa using hopen) job hmem hclose
      · -- the close request is the last that was accepted
        by_contra hne
        have hne : rest.filterMap id ≠ [] := hne
        refine h.last job ?_ hclose
        rw [heq, List.dropLast_append_of_ne_nil (by simp), List.dropLast_append_of_ne_nil (by simp),
          List.dropLast_append_of_ne_nil (by simp), List.dropLast_cons_of_ne_nil hne]
        simp
    · exact .inl rfl
  · dsimp only
    split_ifs <;> rfl
  · intro hm
    exact h.stops (by simpa [ho] using hm)

theorem pending_nodup (hf : s.Futures) : s.pending.Nodup := by
  have hnd : s.slots.Nodup := by
    rw [hf.slots.nodup_iff, hf.idents]
    exact List.nodup_range'
  exact hnd.of_append_left

theorem Owned.next (h : s.Owned []) (hf : s.Futures) {a : Act} (hn : s.next a = some (t, e)) : t.Owned [] := by
  cases a with
  | acquire kind =>
    simp only [State.next] at hn
    split_ifs at hn
    cases hn
    exact ⟨h.lane, h.line, h.last, h.closes, h.replied, h.sending, h.reading, h.sends, h.stops⟩
  | enter kind =>
    simp only [State.next] at hn
    split_ifs at hn
    cases hn
    have hs : ({ s with entering := s.entering.erase kind } : State).Owned [] :=
      ⟨h.lane, h.line, h.last, h.closes, h.replied, h.sending, h.reading, h.sends, h.stops⟩
    exact hs.enter (fun {i} hi => ident_le hf hi) kind
  | send =>
    simp only [State.next] at hn
    split at hn
    · rename_i rest hs ho
      cases hn
      have hc := h.stops (by simp [ho])
      have hb : ({ s with outbox := rest, sender := .ended } : State).broken = true := by simp [broken, hc]
      refine ⟨h.lane, ?_, h.last, h.closes, h.replied, ?_, h.reading, rfl, fun _ => hc⟩
      · obtain ⟨tail, heq, -⟩ := h.line
        refine ⟨tail, heq, ?_⟩
        rintro (hi | hi)
        · cases hi
        · rw [hb] at hi
          cases hi
      · intro hi
        rw [hb] at hi
        cases hi
    · rename_i job rest hs ho
      cases hn
      exact h.send hs ho
    · cases hn
  | sendFails =>
    simp only [State.next] at hn
    split at hn
    · rename_i job rest hs ho
      split_ifs at hn with hb
      cases hn
      refine ⟨h.lane, ?_, h.last, h.closes, ?_, ?_, ?_, rfl, fun hm => h.stops (ho ▸ List.mem_cons_of_mem _ hm)⟩
      · obtain ⟨tail, heq, -⟩ := h.line
        refine ⟨tail, heq, ?_⟩
        rintro (hc | hc)
        · cases hc
        · rw [show s.broken = false from hc] at hb
          cases hb
      · intro i _ hp
        cases hp
      · intro hc
        rw [show s.broken = false from hc] at hb
        cases hb
      · intro hc
        rw [show s.broken = false from hc] at hb
        cases hb
    · cases hn
  | receive =>
    simp only [State.next] at hn
    split at hn
    · rename_i ident rest hr hc
      have hkeep : ∀ i ∈ s.answered, i.ident ∈ s.pending → i.ident = ident ∨ i.ident ∈ rest := by
        intro i hi hp
        have hm := h.replied i hi hp
        rw [hc] at hm
        exact List.mem_cons.mp hm
      split_ifs at hn with hi
      · cases hn
        refine ⟨h.lane, h.line, h.last, h.closes, ?_, h.sending, fun _ => rfl, h.sends, h.stops⟩
        intro i hia hp
        refine (hkeep i hia (List.mem_of_mem_erase hp)).resolve_left ?_
        intro he
        rw [he, (pending_nodup hf).mem_erase_iff] at hp
        exact hp.1 rfl
      · cases hn
        refine ⟨h.lane, h.line, h.last, h.closes, ?_, h.sending, h.reading, h.sends, h.stops⟩
        intro i hia hp
        refine (hkeep i hia hp).resolve_left ?_
        intro he
        exact hi (he ▸ hp)
    · cases hn
  | receiveFails =>
    simp only [State.next] at hn
    split_ifs at hn with hr
    cases hn
    refine ⟨h.lane, h.line, h.last, h.closes, ?_, h.sending, ?_, h.sends, h.stops⟩
    · intro i _ hp
      cases hp
    · intro hc
      have hb := hr.2
      rw [show s.broken = false from hc] at hb
      cases hb
  | senderStep =>
    obtain ⟨⟨u, th⟩, hu, he⟩ := Option.map_eq_some_iff.mp hn
    cases he
    exact h.senderStep hu
  | readerStep =>
    obtain ⟨⟨u, th⟩, hu, he⟩ := Option.map_eq_some_iff.mp hn
    cases he
    exact h.readerStep hu
  | ownerReceive =>
    simp only [State.next] at hn
    split at hn
    · rename_i job rest ho
      split_ifs at hn with ha
      cases hn
      refine ⟨h.lane.append rfl, ?_, h.last, h.closes, h.replied, h.sending, h.reading, h.sends, h.stops⟩
      obtain ⟨tail, heq, htail⟩ := h.line
      refine ⟨tail, ?_, htail⟩
      simp [heq, ho, Process.requests, Message.asked]
    · cases hn
  | ownerHears =>
    simp only [State.next] at hn
    split_ifs at hn with ha
    cases hn
    refine ⟨h.lane.append rfl, ?_, h.last, h.closes, h.replied, h.sending, h.reading, h.sends, h.stops⟩
    obtain ⟨tail, heq, htail⟩ := h.line
    refine ⟨tail, ?_, htail⟩
    simp [heq, withProcess, Process.requests, Message.asked]
  | loop outcome => exact h.pass hf (loop_pass hn)
  | written =>
    simp only [State.next] at hn
    split at hn
    · rename_i job rest hw
      split_ifs at hn with ha
      cases hn
      refine ⟨h.lane.written hw, ?_, h.last, h.closes, h.replied, h.sending, h.reading, h.sends, h.stops⟩
      obtain ⟨tail, heq, htail⟩ := h.line
      refine ⟨tail, ?_, htail⟩
      simp [heq, withProcess, Process.requests, Message.asked]
    · cases hn
  | exit =>
    cases hn
    refine h.process (o := { s.process with alive := false }) ?_ (by simp) rfl h.replied
    exact Process.tokens_perm (o := s.process) (.refl _) h.lane (fun _ => rfl) rfl rfl
  | disconnect =>
    cases hn
    have hb : ({ s with connected := false } : State).broken = true := by simp [broken]
    refine ⟨h.lane, ?_, h.last, h.closes, h.replied, ?_, ?_, h.sends, fun _ => rfl⟩
    · obtain ⟨tail, heq, htail⟩ := h.line
      refine ⟨tail, heq, fun hc => htail (.inl (hc.resolve_right ?_))⟩
      simp [hb]
    · intro hc
      rw [hb] at hc
      cases hc
    · intro hc
      rw [hb] at hc
      cases hc
  | stop =>
    simp only [State.next] at hn
    split_ifs at hn with hc
    cases hn
    have hunsent : ({ s with outbox := s.outbox ++ [none] } : State).unsent = s.unsent := by simp [unsent]
    refine ⟨h.lane, ?_, h.last, h.closes, h.replied, ?_, h.reading, h.sends, fun _ => by simpa using hc⟩
    · obtain ⟨tail, heq, htail⟩ := h.line
      exact ⟨tail, heq, fun hs => (htail hs).trans hunsent.symm⟩
    · intro hb
      rw [hunsent]
      exact h.sending hb

/-- Started and not answered: its transaction waits for the journal, or for the loop after it. -/
def Suspended (s : State) (i : Job) : Prop := i ∈ s.process.writing ∨ .commit i ∈ s.process.inbox

inductive Underway (s : State) (i : Job) : Prop
  | unsent (hsender : s.sender = .idle) (hi : i ∈ s.unsent)
  | sent (hi : i ∈ s.toOwner)
  | received (hi : .request i ∈ s.process.inbox)
  | running (hi : i ∈ s.process.tokens [])
  | waiting (x : ℕ) (hi : i ∈ s.process.queue x) (k : Job) (hk : k ∈ s.process.tokens []) (hx : k.kind = .call x)
  | closing (hi : s.process.stopping = some i)
  | answered (hi : i.ident ∈ s.toClient)

/-- Every earlier request of the session is answered, and no other one of it is suspended. -/
def InTurn (s : State) (j : Job) : Prop :=
  ∀ x, j.kind = .call x →
    (∀ i ∈ s.accepted, i.kind = .call x → i.ident < j.ident → i ∈ s.answered) ∧
      ∀ i, s.Suspended i → i.kind = .call x → i = j

def Serial (s : State) : Event → Prop
  | .started j => s.InTurn j ∧ ¬s.Suspended j
  | .resumed j => s.InTurn j ∧ s.Suspended j
  | .closed j => ∀ i ∈ s.accepted, i ≠ j → i ∈ s.answered

inductive Side
  | reader
  | sender

def Side.step : Side → Act
  | .reader => .readerStep
  | .sender => .senderStep

def thread (s : State) : Side → Thread
  | .reader => s.reader
  | .sender => s.sender

def setThread (s : State) (th : Thread) : Side → State
  | .reader => { s with reader := th }
  | .sender => { s with sender := th }

/-- The next step of a thread that holds futures gives back one permit or resolves one future, and does nothing else.
-/
def Settles (s : State) (side : Side) : Prop :=
  ∃ th, (th.held = (s.thread side).held ∧ th.due + 1 = (s.thread side).due ∧
      s.next side.step = some (({ s with permits := s.permits + 1 } : State).setThread th side, none)) ∨
    ∃ ident, (s.thread side).held = ident :: th.held ∧ th.due = (s.thread side).due ∧
      s.next side.step = some (({ s with resolved := ident :: s.resolved } : State).setThread th side, none)

theorem taken_of_lt (hf : s.Futures) {rest : List Job} (heq : s.accepted = s.taken ++ rest) (hj : j ∈ s.taken)
    {i : Job} (hi : i ∈ s.accepted) (hlt : i.ident < j.ident) : i ∈ s.taken := by
  have hinc := increasing hf
  rw [heq, List.pairwise_append] at hinc
  rw [heq] at hi
  refine (List.mem_append.mp hi).resolve_right fun hr => ?_
  have hgt := hinc.2.2 j hj i hr
  omega

theorem turn (h : s.Owned [j]) (hf : s.Futures) (hj : j.kind = .call x) {i : Job} (hi : i ∈ s.accepted)
    (hk : i.kind = .call x) (hlt : i.ident < j.ident) : i ∈ s.answered := by
  obtain ⟨rest, heq⟩ := h.taken_prefix
  have hjt := (h.lane.tokened j List.mem_cons_self).2.1
  rcases h.lane.located i (taken_of_lt hf heq hjt hi hlt) with ha | ht | ⟨y, hky, hq⟩ | hs
  · exact ha
  · rcases List.mem_cons.mp ht with rfl | ht
    · exact absurd hlt (Nat.lt_irrefl _)
    · exact absurd hk ((h.lane.alone hj).2 i ht)
  · have hgt := h.lane.ahead y j List.mem_cons_self ?_ i hq
    · omega
    · rw [hj, ← hk, hky]
  · rw [(h.lane.stopped i hs).2] at hk
    cases hk

theorem suspended_token {m : Message} {rest : List Message} (hin : s.process.inbox = m :: rest) {i : Job}
    (hi : s.Suspended i) : m = .commit i ∨ i ∈ s.process.take.tokens [] := by
  simp only [Process.tokens, Process.take, hin, List.tail_cons, List.nil_append, List.mem_append, List.mem_filterMap]
  rcases hi with hi | hi
  · exact .inr (.inl hi)
  · rw [hin] at hi
    rcases List.mem_cons.mp hi with hi | hi
    · exact .inl hi.symm
    · exact .inr (.inr ⟨_, hi, rfl⟩)

theorem Owned.inTurn_token (h : s.Owned []) (hf : s.Futures) {m : Message} {rest : List Message}
    (hin : s.process.inbox = m :: rest) (hm : m.token = some j) (hasked : m.asked = none) : s.InTurn j := by
  intro x hj
  have hmid := h.take_token hin hm hasked
  refine ⟨fun i hi hk hlt => turn hmid (hf.same ⟨rfl, rfl, rfl, rfl, rfl, rfl, rfl, rfl, rfl, rfl⟩) hj hi hk hlt, ?_⟩
  intro i hi hk
  rcases suspended_token hin hi with rfl | ht
  · exact (Option.some.inj hm)
  · exact absurd hk ((hmid.lane.alone hj).2 i ht)

theorem Owned.serial (h : s.Owned []) (hf : s.Futures) {outcome : Outcome} {ev : Event}
    (hp : Pass s outcome t (some ev)) : s.Serial ev := by
  cases hp with
  | closed j hstop hdrained =>
    intro i hi hne
    obtain ⟨hjt, hclose⟩ := h.lane.stopped j hstop
    obtain ⟨rest, heq⟩ := h.taken_prefix
    have hbusy : s.process.busy = [] := by
      have hb := (Bool.and_eq_true _ _ ▸ hdrained).1
      simpa using hb
    have hnil : rest = [] := by
      by_contra hr
      refine h.last j ?_ hclose
      rw [heq, List.dropLast_append_of_ne_nil hr]
      exact List.mem_append_left _ hjt
    rw [heq, hnil, List.append_nil] at hi
    rcases h.lane.located i hi with ha | ht | ⟨y, hk, hq⟩ | hs
    · exact ha
    · obtain ⟨⟨y, hk⟩, -⟩ := h.lane.tokened i ht
      exact absurd hk ((h.lane.free_of_not_busy (by simp [hbusy])).1 i ht)
    · have hy := (h.lane.queued y i hq).1
      rw [hbusy] at hy
      cases hy
    · rw [hstop, Option.some.injEq] at hs
      exact absurd hs.symm hne
  | commit j rest t hin hr =>
    refine ⟨h.inTurn_token hf hin rfl rfl, .inr ?_⟩
    rw [hin]
    exact List.mem_cons_self
  | continuation j rest t hin hr =>
    refine ⟨h.inTurn_token hf hin rfl rfl, ?_⟩
    intro hs
    have hmid := h.take_token hin (m := .continuation j) rfl rfl
    obtain ⟨⟨x, hj⟩, -⟩ := hmid.lane.tokened j List.mem_cons_self
    rcases suspended_token hin hs with hm | ht
    · cases hm
    · exact (hmid.lane.alone hj).2 j ht hj
  | plain j rest t hin hj hr =>
    refine ⟨fun x hk => ?_, ?_⟩
    · rw [hj] at hk
      cases hk
    · intro hs
      rcases suspended_token hin hs with hm | ht
      · cases hm
      · rw [Process.tokens_take hin rfl] at ht
        obtain ⟨⟨y, hk⟩, -⟩ := h.lane.tokened j ht
        rw [hj] at hk
        cases hk
  | occupy j x rest t hin hj hx hr =>
    have hmid := h.occupy hf hin hj hx
    have hnone : ∀ i, s.Suspended i → i.kind ≠ .call x := by
      intro i hi
      rcases suspended_token hin hi with hm | ht
      · cases hm
      · rw [Process.tokens_take hin rfl] at ht
        exact (h.lane.free_of_not_busy hx).1 i ht
    refine ⟨?_, fun hs => hnone j hs hj⟩
    intro y hy
    obtain rfl : x = y := Kind.call.inj (hj.symm.trans hy)
    refine ⟨?_, fun i hi hk => absurd hk (hnone i hi)⟩
    intro i hi hk hlt
    exact turn hmid (hf.same ⟨rfl, rfl, rfl, rfl, rfl, rfl, rfl, rfl, rfl, rfl⟩) hj hi hk hlt

theorem Owned.free (h : s.Owned []) (hf : s.Futures) (halive : s.process.alive = true)
    (hin : s.process.inbox.head? = some (.request j)) (hj : j.kind = .call x)
    (hdone : ∀ i ∈ s.taken, i.kind = .call x → i ∈ s.answered) (outcome : Outcome) :
    ∃ t, s.loop outcome = some (t, some (.started j)) := by
  obtain ⟨rest, hcons⟩ := List.head?_eq_some_iff.mp hin
  obtain ⟨-, -, hnone⟩ := h.next_request hf hcons
  have hx : x ∉ s.process.busy := by
    intro hb
    have hcount := h.lane.single x
    rw [if_pos hb] at hcount
    obtain ⟨i, hi, hk⟩ := List.countP_pos_iff.mp (by omega : 0 < (s.process.tokens []).countP (Process.calls x))
    obtain ⟨-, ht, ha⟩ := h.lane.tokened i hi
    exact ha (hdone i ht (by simpa [Process.calls] using hk))
  cases outcome with
  | answer =>
    exact ⟨((s.takeRequest j).withProcess (s.process.take.occupy x)).reply j,
      by simp [State.loop, halive, hnone, hin, hj, hx, State.run]⟩
  | suspend =>
    exact ⟨((s.takeRequest j).withProcess (s.process.take.occupy x)).suspend j,
      by simp [State.loop, halive, hnone, hin, hj, hx, State.run]⟩

theorem Owned.kept (h : s.Owned []) {i : Job} (hi : i ∈ s.accepted) (hp : i.ident ∈ s.pending)
    (hb : s.broken = false) : s.Underway i := by
  obtain ⟨rest, heq, hrest⟩ := h.line
  rw [heq, hrest (.inr hb)] at hi
  rcases List.mem_append.mp hi with hi | hi
  · rcases h.lane.located i hi with ha | ht | ⟨x, hk, hq⟩ | hs
    · exact .answered (h.replied i ha hp)
    · exact .running ht
    · have hcount := h.lane.single x
      rw [if_pos (h.lane.queued x i hq).1] at hcount
      obtain ⟨k, hk, hc⟩ := List.countP_pos_iff.mp (by omega : 0 < (s.process.tokens []).countP (Process.calls x))
      exact .waiting x hq k hk (by simpa [Process.calls] using hc)
    · exact .closing hs
  · rcases List.mem_append.mp hi with hi | hi
    · obtain ⟨m, hm, ha⟩ := List.mem_filterMap.mp hi
      cases m with
      | request job =>
        cases ha
        exact .received hm
      | continuation job => cases ha
      | commit job => cases ha
      | disconnect => cases ha
    · rcases List.mem_append.mp hi with hi | hi
      · exact .sent hi
      · rcases h.sending hb with hs | ⟨-, hs⟩
        · exact .unsent hs hi
        · rw [hs] at hi
          cases hi

theorem Futures.settled (hf : s.Futures) (hr : s.reader.held = []) (hs : s.sender.held = []) {i : Job}
    (hi : i ∈ s.accepted) (hp : i.ident ∉ s.pending) : i.ident ∈ s.resolved := by
  have hm := hf.slots.mem_iff.mpr (List.mem_map_of_mem (f := Job.ident) hi)
  simp only [State.slots, hr, hs, List.nil_append, List.mem_append] at hm
  exact hm.resolve_left hp

theorem Futures.located (hf : s.Futures) : s.slots.Nodup ∧ ∀ ident, ident ∈ s.slots ↔ ∃ i ∈ s.accepted,
    i.ident = ident := by
  constructor
  · rw [hf.slots.nodup_iff, hf.idents]
    exact List.nodup_range'
  · intro ident
    rw [hf.slots.mem_iff, List.mem_map]

theorem invariant (h : Reachable system s) : s.Futures ∧ s.Owned [] := by
  refine Reachable.invariant (I := fun s => s.Futures ∧ s.Owned []) ?_ ?_ h
  · rintro _ ⟨limit, rfl⟩
    exact ⟨.start, .start⟩
  · intro u l w hu hstep
    exact ⟨hu.1.next hstep, hu.2.next hu.1 hstep⟩

end State

end ClawBox.Knowledge
