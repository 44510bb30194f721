import ClawBox.Lib.PyDict
import ClawBox.Lib.Transition
import Mathlib.Logic.Function.Basic

namespace ClawBox.Memory

open Transition

variable {τ : Type}

abbrev Sampler := ℕ

inductive Timer (τ : Type)
  | unstarted
  | collecting
  | serving (ready : List Sampler)
  | sampling (x : Sampler) (ready : List Sampler)
  | waiting (deadline : Option τ) (notified : Bool)
  | dead

inductive Client
  | idle
  | removing (x : Sampler) (notified : Bool)
  | finalSample (x : Sampler)
  | closing (x : Sampler)
  deriving DecidableEq

inductive Waiter
  | timer
  | client (th : ℕ)
  deriving DecidableEq

def Timer.current : Timer τ → Option Sampler
  | .sampling x _ => some x
  | .unstarted | .collecting | .serving _ | .waiting .. | .dead => none

def Timer.notify : Timer τ → Timer τ
  | .waiting deadline _ => .waiting deadline true
  | timer => timer

def Client.notify : Client → Client
  | .removing x _ => .removing x true
  | client => client

structure Loop (τ : Type) where
  samplers : PyDict Sampler τ := ∅
  reading : Option Sampler := none
  timer : Timer τ := .unstarted
  clients : ℕ → Client := fun _ => .idle
  -- those that wait on the condition, the first to come first
  waiters : List Waiter := []

inductive Act (τ : Type)
  | add (th : ℕ) (x : Sampler) (now : τ)
  | remove (th : ℕ) (x : Sampler)
  | wake (th : ℕ)
  | finalSample (th : ℕ)
  | close (th : ℕ)
  | collect (now : τ)
  | begin
  | finish (now : τ) (raised : Bool)
  | wait
  | resume

def Act.adds (x : Sampler) : Act τ → Prop
  | .add _ y _ => y = x
  | _ => False

inductive Event
  | running
  | returned
  | sampling (x : Sampler)
  deriving DecidableEq

def Returns (th : ℕ) (x : Sampler) (l : Act τ × Event) : Prop :=
  l = (.remove th x, .returned) ∨ l = (.wake th, .returned)

namespace Loop

def setClient (s : Loop τ) (th : ℕ) (c : Client) : Loop τ := { s with clients := Function.update s.clients th c }

def notify (s : Loop τ) : Loop τ :=
  match s.waiters with
  | [] => s
  | .timer :: rest => { s with timer := s.timer.notify, waiters := rest }
  | .client th :: rest => { s.setClient th (s.clients th).notify with waiters := rest }

def notifyAll (s : Loop τ) : Loop τ :=
  { s with
    timer := if .timer ∈ s.waiters then s.timer.notify else s.timer
    clients := fun th => if .client th ∈ s.waiters then (s.clients th).notify else s.clients th
    waiters := [] }

section Steps

variable [LinearOrder τ] [Add τ]

def minDue (samplers : PyDict Sampler τ) : Option τ := samplers.values.min?

def add (interval : Sampler → τ) (s : Loop τ) (x : Sampler) (now : τ) : Loop τ :=
  let s := { s with samplers := s.samplers.set x (now + interval x) }
  let s := match s.timer with
    | .unstarted => { s with timer := .collecting }
    | _ => s
  s.notify

def await (s : Loop τ) (th : ℕ) (x : Sampler) : Loop τ × Event :=
  if s.reading = some x then
    ({ s.setClient th (.removing x false) with waiters := s.waiters ++ [.client th] }, .running)
  else (s.setClient th (.finalSample x), .returned)

def remove (s : Loop τ) (th : ℕ) (x : Sampler) : Loop τ × Event :=
  ({ s with samplers := s.samplers.pop x } : Loop τ).notify.await th x

def finish (interval : Sampler → τ) (s : Loop τ) (x : Sampler) (now : τ) (timer : Timer τ) : Loop τ :=
  ({ s with
    reading := none
    timer := timer
    samplers := if (s.samplers.get? x).isSome then s.samplers.set x (now + interval x) else s.samplers
    } : Loop τ).notifyAll

-- A step is what a thread does under the condition; a wait gives it up until a notification.
def next (interval : Sampler → τ) (s : Loop τ) : Act τ → Option (Loop τ × Event)
  | .add th x now =>
    match s.clients th with
    | .idle => some (s.add interval x now, .returned)
    | _ => none
  | .remove th x =>
    match s.clients th with
    | .idle => some (s.remove th x)
    | _ => none
  | .wake th =>
    match s.clients th with
    | .removing x true => some (s.await th x)
    | _ => none
  | .finalSample th =>
    match s.clients th with
    | .finalSample x => some (s.setClient th (.closing x), .running)
    | _ => none
  | .close th =>
    match s.clients th with
    | .closing _ => some (s.setClient th .idle, .running)
    | _ => none
  | .collect now =>
    match s.timer with
    | .collecting =>
      some ({ s with timer := .serving ((s.samplers.entries.filter fun e => e.2 ≤ now).map Prod.fst) }, .running)
    | _ => none
  | .begin =>
    match s.timer with
    | .serving (x :: ready) =>
      if (s.samplers.get? x).isSome then some ({ s with reading := some x, timer := .sampling x ready }, .sampling x)
      else some ({ s with timer := .serving ready }, .running)
    | _ => none
  | .finish now raised =>
    match s.timer with
    | .sampling x ready => some (s.finish interval x now (if raised then .dead else .serving ready), .running)
    | _ => none
  | .wait =>
    match s.timer with
    | .serving [] => some ({ s with timer := .waiting (minDue s.samplers) false, waiters := s.waiters ++ [.timer] },
      .running)
    | _ => none
  | .resume =>
    match s.timer with
    | .waiting deadline notified =>
      -- an overdue wait takes itself out of the queue
      if notified ∨ deadline.isSome then
        some ({ s with timer := .collecting, waiters := s.waiters.filter (· ≠ .timer) }, .running)
      else none
    | _ => none

def Start (s : Loop τ) : Prop := s = {}

def system (interval : Sampler → τ) : System (Loop τ) (Act τ × Event) := .ofNext Start (next interval)

end Steps

structure Shared (s : Loop τ) : Prop where
  reading : s.reading = s.timer.current
  nodup : s.waiters.Nodup
  timerQueued : .timer ∈ s.waiters ↔ ∃ deadline, s.timer = .waiting deadline false
  clientQueued : ∀ th, .client th ∈ s.waiters ↔ ∃ x, s.clients th = .removing x false
  held : ∀ th x, s.clients th = .removing x false → s.reading = some x

theorem current_notify (t : Timer τ) : t.notify.current = t.current := by
  cases t <;> rfl

@[simp] theorem notify_samplers (s : Loop τ) : s.notify.samplers = s.samplers := by
  unfold notify
  split <;> rfl

@[simp] theorem notify_reading (s : Loop τ) : s.notify.reading = s.reading := by
  unfold notify
  split <;> rfl

theorem notify_current (s : Loop τ) : s.notify.timer.current = s.timer.current := by
  unfold notify
  split
  · rfl
  · exact current_notify s.timer
  · rfl

theorem Shared.notify_client {s : Loop τ} (h : Shared s) (th : ℕ) :
    s.notify.clients th = s.clients th ∨
      ∃ x, s.clients th = .removing x false ∧ s.notify.clients th = .removing x true := by
  unfold notify
  split
  · exact .inl rfl
  · exact .inl rfl
  · rename_i u rest hw
    by_cases hth : th = u
    · subst hth
      obtain ⟨x, hx⟩ := (h.clientQueued th).1 (by simp [hw])
      exact .inr ⟨x, hx, by simp [setClient, hx, Client.notify]⟩
    · exact .inl (by simp [setClient, Function.update_of_ne hth])

theorem Shared.notify {s : Loop τ} (h : Shared s) : Shared s.notify := by
  have hnodup := h.nodup
  have hheld : ∀ th x, s.notify.clients th = .removing x false → s.clients th = .removing x false := by
    intro th x hx
    rcases h.notify_client th with heq | ⟨y, _, hy⟩
    · rwa [heq] at hx
    · rw [hy] at hx
      cases hx
  refine ⟨?_, ?_, ?_, ?_, ?_⟩
  · rw [notify_reading, notify_current]
    exact h.reading
  · unfold Loop.notify
    split
    · exact h.nodup
    · rename_i rest hw
      rw [hw] at hnodup
      exact hnodup.of_cons
    · rename_i u rest hw
      rw [hw] at hnodup
      exact hnodup.of_cons
  · have hqueued := h.timerQueued
    unfold Loop.notify
    split
    · exact hqueued
    · rename_i rest hw
      rw [hw] at hnodup hqueued
      obtain ⟨deadline, hd⟩ := hqueued.1 List.mem_cons_self
      simp only [hd, Timer.notify]
      constructor
      · intro hmem
        exact absurd hmem (List.nodup_cons.1 hnodup).1
      · rintro ⟨d, heq⟩
        cases heq
    · rename_i u rest hw
      rw [hw] at hqueued
      simpa [setClient] using hqueued
  · intro th
    have hclient := h.clientQueued th
    unfold Loop.notify
    split
    · exact hclient
    · rename_i rest hw
      rw [hw] at hclient
      simpa using hclient
    · rename_i u rest hw
      rw [hw] at hnodup hclient
      by_cases hth : th = u
      · subst hth
        obtain ⟨x, hx⟩ := hclient.1 List.mem_cons_self
        simp [setClient, hx, Client.notify, (List.nodup_cons.1 hnodup).1]
      · simpa [setClient, Function.update_of_ne hth, hth] using hclient
  · intro th x hx
    rw [notify_reading]
    exact h.held th x (hheld th x hx)

theorem Shared.only_timer {s : Loop τ} (h : Shared s) {deadline : Option τ} (hd : s.timer = .waiting deadline false) :
    s.waiters = [.timer] := by
  have hall : ∀ w ∈ s.waiters, w = .timer := by
    intro w hw
    cases w with
    | timer => rfl
    | client th =>
      obtain ⟨x, hx⟩ := (h.clientQueued th).1 hw
      have hr := h.held th x hx
      rw [h.reading, hd] at hr
      cases hr
  have hmem := h.timerQueued.2 ⟨deadline, hd⟩
  have hnodup := h.nodup
  cases hws : s.waiters with
  | nil =>
    rw [hws] at hmem
    cases hmem
  | cons w rest =>
    rw [hws] at hall hnodup
    have hw := hall w List.mem_cons_self
    cases rest with
    | nil => rw [hw]
    | cons v rest =>
      have hv := hall v (by simp)
      rw [hw, hv] at hnodup
      simp at hnodup

theorem Shared.notified {s : Loop τ} (h : Shared s) {deadline : Option τ} :
    s.notify.timer ≠ .waiting deadline false := by
  intro hd
  by_cases hwait : ∃ d, s.timer = .waiting d false
  · obtain ⟨d, hd'⟩ := hwait
    have hw := h.only_timer hd'
    unfold Loop.notify at hd
    rw [hw] at hd
    simp only [hd', Timer.notify] at hd
    cases hd
  · have hsame : s.notify.timer = s.timer := by
      unfold Loop.notify
      split
      · rfl
      · rename_i rest hw
        exact absurd (h.timerQueued.1 (by simp [hw])) hwait
      · rfl
    rw [hsame] at hd
    exact hwait ⟨deadline, hd⟩

variable [LinearOrder τ]

structure Inv (s : Loop τ) : Prop extends Shared s where
  deadline : ∀ deadline, s.timer = .waiting deadline false → deadline = minDue s.samplers

variable [Add τ] {interval : Sampler → τ} {s t : Loop τ}

omit [Add τ] in
theorem Shared.notify_inv (h : Shared s) : Inv s.notify := ⟨h.notify, fun _ hd => absurd hd h.notified⟩

omit [Add τ] in
theorem Inv.setClient (h : Inv s) {th : ℕ} {c : Client} (hth : ∀ x, s.clients th ≠ .removing x false)
    (hc : ∀ x, c ≠ .removing x false) : Inv (s.setClient th c) := by
  refine ⟨⟨h.reading, h.nodup, h.timerQueued, ?_, ?_⟩, h.deadline⟩
  · intro u
    by_cases hu : u = th
    · subst hu
      have := h.clientQueued u
      simp only [hth, exists_false, iff_false] at this
      simp [Loop.setClient, this, hc]
    · simpa [Loop.setClient, Function.update_of_ne hu] using h.clientQueued u
  · intro u x hx
    by_cases hu : u = th
    · subst hu
      simp only [Loop.setClient, Function.update_self] at hx
      exact absurd hx (hc x)
    · simp only [Loop.setClient, Function.update_of_ne hu] at hx
      exact h.held u x hx

omit [Add τ] in
theorem Inv.await (h : Inv s) {th : ℕ} (hth : ∀ x, s.clients th ≠ .removing x false) (x : Sampler) :
    Inv (s.await th x).1 := by
  unfold Loop.await
  split_ifs with hr
  · have hnew : Waiter.client th ∉ s.waiters := by
      rw [h.clientQueued th]
      rintro ⟨y, hy⟩
      exact hth y hy
    refine ⟨⟨h.reading, ?_, ?_, ?_, ?_⟩, h.deadline⟩
    · exact List.Nodup.append h.nodup (List.nodup_singleton _) (by simpa using hnew)
    · simpa [Loop.setClient] using h.timerQueued
    · intro u
      by_cases hu : u = th
      · subst hu
        simp [Loop.setClient]
      · simpa [Loop.setClient, Function.update_of_ne hu, hu] using h.clientQueued u
    · intro u y hy
      by_cases hu : u = th
      · subst hu
        simp only [Loop.setClient, Function.update_self, Client.removing.injEq, and_true] at hy
        exact hy ▸ hr
      · simp only [Loop.setClient, Function.update_of_ne hu] at hy
        exact h.held u y hy
  · exact h.setClient hth (by simp)

omit [LinearOrder τ] [Add τ] in
theorem Shared.unheld (h : Shared s) (hcur : s.timer.current = none) (th : ℕ) (x : Sampler) :
    s.clients th ≠ .removing x false := by
  intro hx
  have hr := h.held th x hx
  rw [h.reading, hcur] at hr
  cases hr

omit [Add τ] in
theorem Shared.proceeds (h : Shared s) (hcur : s.timer.current = none) (hold : ∀ d, s.timer ≠ .waiting d false)
    {r : Option Sampler} {timer : Timer τ} (hr : r = timer.current) (hnew : ∀ d, timer ≠ .waiting d false) :
    Inv { s with reading := r, timer := timer } := by
  refine ⟨⟨hr, h.nodup, ?_, h.clientQueued, ?_⟩, fun d hd => absurd hd (hnew d)⟩
  · have := h.timerQueued
    simp only [hold, exists_false, iff_false] at this
    simp [this, hnew]
  · intro th x hx
    exact absurd hx (h.unheld hcur th x)

omit [Add τ] in
theorem Inv.wait (h : Inv s) (ht : s.timer = .serving []) :
    Inv { s with timer := .waiting (minDue s.samplers) false, waiters := s.waiters ++ [.timer] } := by
  have hcur : s.timer.current = none := by rw [ht]; rfl
  have hnew : Waiter.timer ∉ s.waiters := by
    rw [h.timerQueued, ht]
    simp
  refine ⟨⟨?_, ?_, ?_, ?_, ?_⟩, ?_⟩
  · exact h.reading.trans hcur
  · exact List.Nodup.append h.nodup (List.nodup_singleton _) (by simpa using hnew)
  · simp
  · intro th
    simpa using h.clientQueued th
  · intro th x hx
    exact absurd hx (h.unheld hcur th x)
  · intro d hd
    simp only [Timer.waiting.injEq, and_true] at hd
    exact hd.symm

omit [Add τ] in
theorem Inv.resume (h : Inv s) {d : Option τ} {b : Bool} (ht : s.timer = .waiting d b) :
    Inv { s with timer := .collecting, waiters := s.waiters.filter (· ≠ .timer) } := by
  have hcur : s.timer.current = none := by rw [ht]; rfl
  refine ⟨⟨h.reading.trans hcur, h.nodup.filter _, by simp, ?_, ?_⟩, by simp⟩
  · intro th
    simpa using h.clientQueued th
  · intro th x hx
    exact absurd hx (h.unheld hcur th x)

omit [Add τ] in
theorem Shared.notifyAll (h : Shared s) {samplers : PyDict Sampler τ} {timer : Timer τ} (hcur : timer.current = none)
    (hnew : ∀ d, timer ≠ .waiting d false) :
    Inv ({ s with reading := none, timer := timer, samplers := samplers } : Loop τ).notifyAll := by
  have htimer : ∀ d, (if Waiter.timer ∈ s.waiters then timer.notify else timer) ≠ .waiting d false := by
    intro d
    split_ifs
    · cases timer with
      | waiting e b => simp [Timer.notify]
      | _ => simp [Timer.notify]
    · exact hnew d
  have hclient : ∀ th x, (if Waiter.client th ∈ s.waiters then (s.clients th).notify else s.clients th) ≠
      .removing x false := by
    intro th x
    split_ifs with hmem
    · obtain ⟨y, hy⟩ := (h.clientQueued th).1 hmem
      simp [hy, Client.notify]
    · intro hx
      exact hmem ((h.clientQueued th).2 ⟨x, hx⟩)
  refine ⟨⟨?_, List.nodup_nil, ?_, ?_, ?_⟩, ?_⟩
  · change none = (if Waiter.timer ∈ s.waiters then timer.notify else timer).current
    split_ifs
    · rw [current_notify, hcur]
    · rw [hcur]
  · simpa [Loop.notifyAll] using htimer
  · intro th
    simpa [Loop.notifyAll] using hclient th
  · intro th x hx
    exact absurd hx (hclient th x)
  · intro d hd
    exact absurd hd (htimer d)

omit [LinearOrder τ] [Add τ] in
theorem Shared.setSamplers (h : Shared s) (samplers : PyDict Sampler τ) : Shared { s with samplers := samplers } :=
  ⟨h.reading, h.nodup, h.timerQueued, h.clientQueued, h.held⟩

theorem Inv.add (h : Inv s) (x : Sampler) (now : τ) : Inv (s.add interval x now) := by
  simp only [Loop.add]
  split
  · rename_i ht
    have hcur : s.timer.current = none := by rw [ht]; rfl
    have hold : ∀ d, s.timer ≠ .waiting d false := by simp [ht]
    have hnew : Inv { s with reading := s.reading, timer := .collecting } :=
      h.proceeds hcur hold (h.reading.trans hcur) (by simp)
    exact (hnew.toShared.setSamplers _).notify_inv
  · exact (h.toShared.setSamplers _).notify_inv

omit [Add τ] in
theorem Inv.remove (h : Inv s) {th : ℕ} (hth : s.clients th = .idle) (x : Sampler) : Inv (s.remove th x).1 := by
  have hpop := h.toShared.setSamplers (s.samplers.pop x)
  apply hpop.notify_inv.await
  intro y
  rcases hpop.notify_client th with heq | ⟨z, hz, _⟩
  · rw [heq]
    simp [hth]
  · rw [hth] at hz
    cases hz

theorem Inv.finish (h : Inv s) {timer : Timer τ} (hcur : timer.current = none) (hnew : ∀ d, timer ≠ .waiting d false)
    (x : Sampler) (now : τ) : Inv (s.finish interval x now timer) :=
  h.notifyAll hcur hnew

theorem Inv.step {a : Act τ} {o : Event} (h : Inv s) (hn : next interval s a = some (t, o)) : Inv t := by
  cases a with
  | add th x now =>
    simp only [next] at hn
    split at hn
    · cases hn
      exact h.add x now
    · cases hn
  | remove th x =>
    simp only [next] at hn
    split at hn
    · rename_i hth
      have ht : (s.remove th x).1 = t := congrArg Prod.fst (Option.some.inj hn)
      exact ht ▸ h.remove hth x
    · cases hn
  | wake th =>
    simp only [next] at hn
    split at hn
    · rename_i x hth
      have ht : (s.await th x).1 = t := congrArg Prod.fst (Option.some.inj hn)
      exact ht ▸ h.await (by simp [hth]) x
    · cases hn
  | finalSample th =>
    simp only [next] at hn
    split at hn
    · rename_i x hth
      cases hn
      exact h.setClient (by simp [hth]) (by simp)
    · cases hn
  | close th =>
    simp only [next] at hn
    split at hn
    · rename_i x hth
      cases hn
      exact h.setClient (by simp [hth]) (by simp)
    · cases hn
  | collect now =>
    simp only [next] at hn
    split at hn
    · rename_i ht
      cases hn
      have hcur : s.timer.current = none := by rw [ht]; rfl
      exact h.proceeds hcur (by simp [ht]) (h.reading.trans hcur) (by simp)
    · cases hn
  | begin =>
    simp only [next] at hn
    split at hn
    · rename_i x ready ht
      have hcur : s.timer.current = none := by rw [ht]; rfl
      split_ifs at hn
      · cases hn
        exact h.proceeds hcur (by simp [ht]) rfl (by simp)
      · cases hn
        exact h.proceeds hcur (by simp [ht]) (h.reading.trans hcur) (by simp)
    · cases hn
  | finish now raised =>
    simp only [next] at hn
    split at hn
    · cases hn
      apply h.finish
      · cases raised <;> rfl
      · intro d
        cases raised <;> simp
    · cases hn
  | wait =>
    simp only [next] at hn
    split at hn
    · rename_i ht
      cases hn
      exact h.wait ht
    · cases hn
  | resume =>
    simp only [next] at hn
    split at hn
    · rename_i d b ht
      split_ifs at hn
      cases hn
      exact h.resume ht
    · cases hn

theorem Inv.reachable (h : Reachable (system interval) s) : Inv s := by
  apply h.invariant
  · rintro _ rfl
    exact ⟨⟨rfl, List.nodup_nil, by simp, by simp, by simp⟩, by simp⟩
  · rintro u ⟨a, o⟩ v hu hn
    exact hu.step hn

structure Quiet (x : Sampler) (s : Loop τ) : Prop where
  absent : s.samplers.get? x = none
  unread : s.reading ≠ some x

structure Pending (th : ℕ) (x : Sampler) (s : Loop τ) : Prop where
  absent : s.samplers.get? x = none
  waits : ∃ notified, s.clients th = .removing x notified

omit [LinearOrder τ] [Add τ] in
theorem notify_pending {th : ℕ} {x : Sampler} (hw : ∃ b, s.clients th = .removing x b) :
    ∃ b, s.notify.clients th = .removing x b := by
  obtain ⟨b, hb⟩ := hw
  unfold notify
  split
  · exact ⟨b, hb⟩
  · exact ⟨b, hb⟩
  · rename_i u rest _
    by_cases hu : th = u
    · subst hu
      exact ⟨true, by simp [setClient, hb, Client.notify]⟩
    · exact ⟨b, by simpa [setClient, Function.update_of_ne hu] using hb⟩

omit [LinearOrder τ] [Add τ] in
theorem notifyAll_pending {th : ℕ} {x : Sampler} (hw : ∃ b, s.clients th = .removing x b) :
    ∃ b, s.notifyAll.clients th = .removing x b := by
  obtain ⟨b, hb⟩ := hw
  simp only [notifyAll]
  split_ifs
  · exact ⟨true, by simp [hb, Client.notify]⟩
  · exact ⟨b, hb⟩

omit [LinearOrder τ] [Add τ] in
@[simp] theorem await_samplers (th : ℕ) (x : Sampler) : (s.await th x).1.samplers = s.samplers := by
  unfold await
  split_ifs <;> rfl

omit [LinearOrder τ] [Add τ] in
@[simp] theorem await_reading (th : ℕ) (x : Sampler) : (s.await th x).1.reading = s.reading := by
  unfold await
  split_ifs <;> rfl

omit [LinearOrder τ] [Add τ] in
theorem await_event (th : ℕ) (x y : Sampler) : (s.await th x).2 ≠ .sampling y := by
  unfold await
  split_ifs <;> simp

omit [LinearOrder τ] [Add τ] in
theorem await_client {th u : ℕ} (hu : u ≠ th) (x : Sampler) : (s.await th x).1.clients u = s.clients u := by
  unfold await
  split_ifs <;> simp [setClient, Function.update_of_ne hu]

omit [LinearOrder τ] in
theorem add_samplers (x : Sampler) (now : τ) :
    (s.add interval x now).samplers = s.samplers.set x (now + interval x) := by
  simp only [Loop.add]
  split <;> simp

omit [LinearOrder τ] in
theorem add_reading (x : Sampler) (now : τ) : (s.add interval x now).reading = s.reading := by
  simp only [Loop.add]
  split <;> simp

omit [LinearOrder τ] in
theorem add_pending {th : ℕ} {x : Sampler} (hw : ∃ b, s.clients th = .removing x b) (y : Sampler) (now : τ) :
    ∃ b, (s.add interval y now).clients th = .removing x b := by
  simp only [Loop.add]
  split <;> exact notify_pending hw

theorem next_absent {a : Act τ} {o : Event} {x : Sampler} (h : s.samplers.get? x = none)
    (hn : next interval s a = some (t, o)) (ha : ¬ a.adds x) :
    t.samplers.get? x = none ∧ (t.reading = some x → s.reading = some x) ∧ o ≠ .sampling x := by
  cases a with
  | add th y now =>
    simp only [next] at hn
    split at hn
    · cases hn
      have hne : x ≠ y := fun hxy => ha hxy.symm
      rw [add_samplers, add_reading, PyDict.get?_set_ne _ _ hne]
      exact ⟨h, id, by simp⟩
    · cases hn
  | remove th y =>
    simp only [next] at hn
    split at hn
    · have ht : (s.remove th y).1 = t := congrArg Prod.fst (Option.some.inj hn)
      have ho : (s.remove th y).2 = o := congrArg Prod.snd (Option.some.inj hn)
      subst ht ho
      refine ⟨?_, ?_, await_event th y x⟩
      · simp [remove, PyDict.get?_pop, h]
      · simp [remove]
    · cases hn
  | wake th =>
    simp only [next] at hn
    split at hn
    · rename_i y hth
      have ht : (s.await th y).1 = t := congrArg Prod.fst (Option.some.inj hn)
      have ho : (s.await th y).2 = o := congrArg Prod.snd (Option.some.inj hn)
      subst ht ho
      exact ⟨by simpa using h, by simp, await_event th y x⟩
    · cases hn
  | finalSample th =>
    simp only [next] at hn
    split at hn
    · cases hn
      exact ⟨h, id, by simp⟩
    · cases hn
  | close th =>
    simp only [next] at hn
    split at hn
    · cases hn
      exact ⟨h, id, by simp⟩
    · cases hn
  | collect now =>
    simp only [next] at hn
    split at hn
    · cases hn
      exact ⟨h, id, by simp⟩
    · cases hn
  | begin =>
    simp only [next] at hn
    split at hn
    · rename_i y ready ht
      split_ifs at hn with hy
      · cases hn
        have hne : y ≠ x := by
          rintro rfl
          simp [h] at hy
        exact ⟨h, by simp [hne], by simp [hne]⟩
      · cases hn
        exact ⟨h, id, by simp⟩
    · cases hn
  | finish now raised =>
    simp only [next] at hn
    split at hn
    · rename_i y ready ht
      cases hn
      refine ⟨?_, by simp [finish, notifyAll], by simp⟩
      simp only [finish, notifyAll]
      split_ifs with hy
      · have hne : x ≠ y := by
          rintro rfl
          simp [h] at hy
        rw [PyDict.get?_set_ne _ _ hne, h]
      · exact h
    · cases hn
  | wait =>
    simp only [next] at hn
    split at hn
    · cases hn
      exact ⟨h, id, by simp⟩
    · cases hn
  | resume =>
    simp only [next] at hn
    split at hn
    · split_ifs at hn
      cases hn
      exact ⟨h, id, by simp⟩
    · cases hn

theorem Quiet.step {a : Act τ} {o : Event} {x : Sampler} (h : Quiet x s) (hn : next interval s a = some (t, o))
    (ha : ¬ a.adds x) : Quiet x t ∧ o ≠ .sampling x := by
  obtain ⟨habs, hread, ho⟩ := next_absent h.absent hn ha
  exact ⟨⟨habs, fun hr => h.unread (hread hr)⟩, ho⟩

omit [LinearOrder τ] [Add τ] in
theorem await_settles {th : ℕ} {x : Sampler} (h : s.samplers.get? x = none) :
    Pending th x (s.await th x).1 ∧ (s.await th x).2 ≠ .returned ∨ Quiet x (s.await th x).1 := by
  unfold await
  split_ifs with hr
  · exact .inl ⟨⟨h, false, by simp [setClient]⟩, by simp⟩
  · exact .inr ⟨h, hr⟩

theorem Pending.step {a : Act τ} {o : Event} {th : ℕ} {x : Sampler} (h : Pending th x s)
    (hn : next interval s a = some (t, o)) (ha : ¬ a.adds x) :
    Pending th x t ∧ ¬ Returns th x (a, o) ∨ Quiet x t := by
  have habs := (next_absent h.absent hn ha).1
  obtain ⟨b, hb⟩ := h.waits
  cases a with
  | add u y now =>
    simp only [next] at hn
    split at hn
    · cases hn
      exact .inl ⟨⟨habs, add_pending h.waits y now⟩, by simp [Returns]⟩
    · cases hn
  | remove u y =>
    simp only [next] at hn
    split at hn
    · rename_i hu
      have hne : th ≠ u := by
        rintro rfl
        simp [hb] at hu
      have ht : (s.remove u y).1 = t := congrArg Prod.fst (Option.some.inj hn)
      subst ht
      refine .inl ⟨⟨habs, ?_⟩, by simp [Returns, Ne.symm hne]⟩
      rw [remove, await_client hne]
      exact notify_pending h.waits
    · cases hn
  | wake u =>
    simp only [next] at hn
    split at hn
    · rename_i y hu
      have ht : (s.await u y).1 = t := congrArg Prod.fst (Option.some.inj hn)
      have ho : (s.await u y).2 = o := congrArg Prod.snd (Option.some.inj hn)
      subst ht ho
      by_cases hne : th = u
      · subst hne
        obtain ⟨rfl, -⟩ : x = y ∧ b = true := by simpa [hb] using hu
        rcases await_settles h.absent with hp | hq
        · exact .inl ⟨hp.1, by simp [Returns, hp.2]⟩
        · exact .inr hq
      · refine .inl ⟨⟨habs, b, ?_⟩, by simp [Returns, Ne.symm hne]⟩
        rw [await_client hne, hb]
    · cases hn
  | finalSample u =>
    simp only [next] at hn
    split at hn
    · rename_i y hu
      cases hn
      have hne : th ≠ u := by
        rintro rfl
        simp [hb] at hu
      exact .inl ⟨⟨habs, b, by simp [setClient, Function.update_of_ne hne, hb]⟩, by simp [Returns]⟩
    · cases hn
  | close u =>
    simp only [next] at hn
    split at hn
    · rename_i y hu
      cases hn
      have hne : th ≠ u := by
        rintro rfl
        simp [hb] at hu
      exact .inl ⟨⟨habs, b, by simp [setClient, Function.update_of_ne hne, hb]⟩, by simp [Returns]⟩
    · cases hn
  | collect now =>
    simp only [next] at hn
    split at hn
    · cases hn
      exact .inl ⟨⟨habs, b, hb⟩, by simp [Returns]⟩
    · cases hn
  | begin =>
    simp only [next] at hn
    split at hn
    · split_ifs at hn
      · cases hn
        exact .inl ⟨⟨habs, b, hb⟩, by simp [Returns]⟩
      · cases hn
        exact .inl ⟨⟨habs, b, hb⟩, by simp [Returns]⟩
    · cases hn
  | finish now raised =>
    simp only [next] at hn
    split at hn
    · cases hn
      exact .inl ⟨⟨habs, notifyAll_pending ⟨b, hb⟩⟩, by simp [Returns]⟩
    · cases hn
  | wait =>
    simp only [next] at hn
    split at hn
    · cases hn
      exact .inl ⟨⟨habs, b, hb⟩, by simp [Returns]⟩
    · cases hn
  | resume =>
    simp only [next] at hn
    split at hn
    · split_ifs at hn
      cases hn
      exact .inl ⟨⟨habs, b, hb⟩, by simp [Returns]⟩
    · cases hn

theorem remove_settles {o : Event} {th : ℕ} {x : Sampler} (hn : next interval s (.remove th x) = some (t, o)) :
    Pending th x t ∧ ¬ Returns th x ((.remove th x, o) : Act τ × Event) ∨ Quiet x t := by
  simp only [next] at hn
  split at hn
  · have ht : (s.remove th x).1 = t := congrArg Prod.fst (Option.some.inj hn)
    have ho : (s.remove th x).2 = o := congrArg Prod.snd (Option.some.inj hn)
    subst ht ho
    have habs : ({ s with samplers := s.samplers.pop x } : Loop τ).notify.samplers.get? x = none := by simp
    rcases await_settles habs with hp | hq
    · refine .inl ⟨hp.1, ?_⟩
      simpa [Returns, remove] using hp.2
    · exact .inr hq
  · cases hn

theorem Quiet.run {x : Sampler} {ls : List (Act τ × Event)} (hr : Run (system interval) s ls t) (h : Quiet x s)
    (hadd : ∀ l ∈ ls, ¬ l.1.adds x) : Quiet x t ∧ ∀ l ∈ ls, l.2 ≠ .sampling x := by
  induction hr with
  | nil => exact ⟨h, by simp⟩
  | @snoc u v ls l hr hn ih =>
    obtain ⟨hq, hls⟩ := ih fun l hl => hadd l (List.mem_append_left _ hl)
    obtain ⟨hv, hl⟩ := hq.step hn (hadd l (by simp))
    refine ⟨hv, ?_⟩
    intro k hk
    rcases List.mem_append.1 hk with hk | hk
    · exact hls k hk
    · rw [List.mem_singleton.1 hk]
      exact hl

theorem settles_run {o : Event} {th : ℕ} {x : Sampler} {u : Loop τ} {ls : List (Act τ × Event)}
    (hn : next interval s (.remove th x) = some (t, o)) (hr : Run (system interval) t ls u)
    (hadd : ∀ l ∈ ls, ¬ l.1.adds x) :
    Pending th x u ∧ (∀ l ∈ (.remove th x, o) :: ls, ¬ Returns th x l) ∨ Quiet x u := by
  induction hr with
  | nil =>
    rcases remove_settles hn with ⟨hp, ho⟩ | hq
    · exact .inl ⟨hp, by simpa using ho⟩
    · exact .inr hq
  | @snoc v w ls l hr hl ih =>
    have hstep := hadd l (by simp)
    rcases ih fun k hk => hadd k (List.mem_append_left _ hk) with ⟨hp, hnone⟩ | hq
    · rcases hp.step hl hstep with ⟨hp', ho⟩ | hq
      · refine .inl ⟨hp', ?_⟩
        intro k hk
        rcases List.mem_append.1 (List.cons_append ▸ hk : k ∈ ((.remove th x, o) :: ls) ++ [l]) with hk | hk
        · exact hnone k hk
        · rw [List.mem_singleton.1 hk]
          exact ho
      · exact .inr hq
    · exact .inr (hq.step hl hstep).1

/-- Once `remove(x)` has returned, `_run` reads `x` no more, and a wait of `_run` is for the deadlines as they are. -/
theorem sampling_loop_quiescence (interval : Sampler → τ) :
    (∀ s deadline notified, Reachable (system interval) s → s.timer = .waiting deadline notified →
      notified = true ∨ deadline = minDue s.samplers) ∧
    (∀ s t u v th x o as bs, Reachable (system interval) s → (system interval).step s (.remove th x, o) t →
      Run (system interval) t as u → Run (system interval) u bs v → (∀ l ∈ as ++ bs, ¬ l.1.adds x) →
      ((∃ l ∈ (.remove th x, o) :: as, Returns th x l) →
        v.timer.current ≠ some x ∧ ∀ l ∈ bs, l.2 ≠ .sampling x) ∧
      (v.clients th = .finalSample x ∨ v.clients th = .closing x → v.timer.current ≠ some x)) := by
  refine ⟨?_, ?_⟩
  · intro s deadline notified hs hd
    cases notified with
    | true => exact .inl rfl
    | false => exact .inr ((Inv.reachable hs).deadline deadline hd)
  · intro s t u v th x o as bs hs hn has hbs hadd
    have hcur : v.reading = v.timer.current := (Inv.reachable (((hs.step hn).run has).run hbs)).reading
    rw [← hcur]
    have hu := settles_run hn has fun l hl => hadd l (List.mem_append_left _ hl)
    have hlate : ∀ l ∈ bs, ¬ l.1.adds x := fun l hl => hadd l (List.mem_append_right _ hl)
    constructor
    · rintro ⟨l, hl, hret⟩
      rcases hu with ⟨_, hnone⟩ | hq
      · exact absurd hret (hnone l hl)
      · obtain ⟨hv, hls⟩ := hq.run hbs hlate
        exact ⟨hv.unread, hls⟩
    · intro hth
      rcases settles_run hn (has.append hbs) hadd with ⟨hp, _⟩ | hq
      · obtain ⟨b, hb⟩ := hp.waits
        simp [hb] at hth
      · exact hq.unread

-- the sampler is removed while it is read; the read ends, `remove` returns and `_run` waits
theorem sampling_loop_quiescence_removed :
    let s := (trace (next fun _ => 5) ({} : Loop ℕ) [.add 0 7 0, .collect 6, .begin]).1
    let t := (s.remove 0 7).1
    let u := (trace (next fun _ => 5) t [.finish 8 false, .wake 0]).1
    let v := (trace (next fun _ => 5) u [.finalSample 0, .wait]).1
    s.timer.current = some 7 ∧ v.clients 0 = .closing 7 ∧ v.timer.current ≠ some 7 := by
  intro s t u v
  have hs : Reachable (system fun _ => 5) s := ⟨{}, _, rfl, run_trace Start (next fun _ => 5) _ _⟩
  have hn : (system fun _ => 5).step s (.remove 0 7, .running) t := by rfl
  have hu : Run (system fun _ => 5) t [(.finish 8 false, .running), (.wake 0, .returned)] u :=
    run_trace Start (next fun _ => 5) t [.finish 8 false, .wake 0]
  have hv : Run (system fun _ => 5) u [(.finalSample 0, .running), (.wait, .running)] v :=
    run_trace Start (next fun _ => 5) u [.finalSample 0, .wait]
  refine ⟨rfl, rfl, ?_⟩
  apply ((sampling_loop_quiescence fun _ => 5).2 s t u v 0 7 .running _ _ hs hn hu hv (by simp [Act.adds])).1 ?_ |>.1
  exact ⟨(.wake 0, .returned), by simp, .inr rfl⟩

end Loop

end ClawBox.Memory
