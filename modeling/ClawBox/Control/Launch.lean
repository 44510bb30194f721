import ClawBox.Control.Owners

namespace ClawBox.Control

open Transition

inductive ShimPhase
  | admitting (attempt http : ℕ)
  | admitted (http r : ℕ) (response : Fields)
  | running (r : ℕ)
  | completing (attempt http r : ℕ)
  | returned
  deriving DecidableEq

structure Shim where
  request : Request
  phase : ShimPhase
  deriving DecidableEq

structure Launch where
  shim : ℕ
  http : ℕ
  executionId : Value
  admission : ℕ
  deriving DecidableEq

structure Fleet where
  control : State := {}
  registered : Bool := true
  -- the HTTP requests that were sent, and the number of the next one
  posted : PyDict ℕ Action := ∅
  minted : ℕ := 0
  shims : PyDict ℕ Shim := ∅
  launches : List Launch := []

inductive FleetAct
  | spawn (k : ℕ) (request : Request)
  -- an HTTP request reaches the server
  | arrive (i : ℕ)
  | serve (i : ℕ) (a : Action)
  -- a start notice of the bridge, or a drain of the worker
  | notice (a : Action)
  | receive (k : ℕ)
  -- an `OSError` of the request in `_post`
  | lose (k : ℕ)
  -- an HTTP error, a route that is refused, any other exception, or a kill
  | fail (k : ℕ)
  | launch (k : ℕ)
  | reap (k : ℕ) (body : Fields)
  | unregister
  | discard

def attempts : ℕ := 3

def Action.moves : Action → Bool
  | .admission _ | .executionStart _ _ | .completion _ | .drain _ _ => false
  | _ => true

def Action.noticed : Action → Bool
  | .executionStart _ _ | .drain _ _ => true
  | _ => false

namespace Fleet

def putShim (s : Fleet) (k : ℕ) (request : Request) (phase : ShimPhase) : Fleet :=
  { s with shims := s.shims.set k ⟨request, phase⟩ }

def post (s : Fleet) (a : Action) : Fleet := { s with posted := s.posted.set s.minted a, minted := s.minted + 1 }

def runControl (s : Fleet) (i : ℕ) (a : Action) : Option Fleet :=
  (s.control.next (i, a)).map fun c => { s with control := c.1 }

def answer (s : Fleet) (k : ℕ) (request : Request) (http : ℕ) : Option Fleet :=
  match s.control.requests.get? http with
  | some (.delivered r _ response duplicate) =>
    some (s.putShim k request
      (if item response "decision" ≠ .text "ADMIT" ∨ duplicate = true then .returned else .admitted http r response))
  | _ => none

def acknowledge (s : Fleet) (k : ℕ) (request : Request) (http : ℕ) : Option Fleet :=
  match s.control.requests.get? http with
  | some (.acknowledged _ _) => some (s.putShim k request .returned)
  | _ => none

def repost (s : Fleet) (k : ℕ) (request : Request) (attempt : ℕ) (a : Action) (phase : ShimPhase) : Fleet :=
  if attempt + 1 < attempts then (s.post a).putShim k request phase else s.putShim k request .returned

-- A request travels for any time or is lost, and so does its answer; a shim posts again until its attempts are used
-- up.
def next (s : Fleet) : FleetAct → Option (Fleet × Unit)
  | .spawn k request =>
    if (s.shims.get? k).isSome then none
    else some ((s.post (.admission request)).putShim k request (.admitting 0 s.minted), ())
  | .arrive i =>
    if s.registered then (s.posted.get? i).bind fun a => (s.runControl i a).map (·, ()) else none
  | .serve i a => if a.moves then (s.runControl i a).map (·, ()) else none
  | .notice a => if a.noticed then ((s.post a).runControl s.minted a).map (·, ()) else none
  | .receive k =>
    (s.shims.get? k).bind fun x =>
      match x.phase with
      | .admitting _ http => (s.answer k x.request http).map (·, ())
      | .completing _ http _ => (s.acknowledge k x.request http).map (·, ())
      | _ => none
  | .lose k =>
    (s.shims.get? k).bind fun x =>
      match x.phase with
      | .admitting attempt _ =>
        some (s.repost k x.request attempt (.admission x.request) (.admitting (attempt + 1) s.minted), ())
      | .completing attempt http r =>
        (s.posted.get? http).map fun a => (s.repost k x.request attempt a (.completing (attempt + 1) s.minted r), ())
      | _ => none
  | .fail k => (s.shims.get? k).map fun x => (s.putShim k x.request .returned, ())
  | .launch k =>
    (s.shims.get? k).bind fun x =>
      match x.phase with
      | .admitted http r _ =>
        some ({ s.putShim k x.request (.running r) with
          launches := ⟨k, http, x.request.executionId, r⟩ :: s.launches }, ())
      | _ => none
  | .reap k body =>
    (s.shims.get? k).bind fun x =>
      match x.phase with
      | .running r =>
        some ((s.post (.completion { x.request with body := merge x.request.body body })).putShim k x.request
          (.completing 0 s.minted r), ())
      | _ => none
  | .unregister => some ({ s with registered := false }, ())
  | .discard =>
    some ({ s with
      registered := false
      control := { s.control with session := { s.control.session with lifecycle := .closed } } }, ())

def Start (s : Fleet) : Prop := ∃ c, State.Start c ∧ s = { control := c }

def system : Transition.System Fleet (FleetAct × Unit) := .ofNext Start next

end Fleet

def ShimPhase.awaited : ShimPhase → Option ℕ
  | .admitting _ http | .admitted http _ _ => some http
  | _ => none

namespace Fleet

variable {s t : Fleet} {k : ℕ} {x : Shim}

def Granted (s : Fleet) (http r : ℕ) (executionId : Value) : Prop :=
  ∃ q response, s.control.requests.get? http = some (.delivered r q response false) ∧ q.executionId = executionId

structure Sound (s : Fleet) : Prop where
  owned : s.control.Owned
  taken : ∀ i p, s.control.requests.get? i = some p → i < s.minted
  fresh : ∀ i a, s.posted.get? i = some a → i < s.minted
  asked : ∀ i p q, s.control.requests.get? i = some p → p.asked = some q → s.posted.get? i = some (.admission q)
  waiting : ∀ k x attempt http, s.shims.get? k = some x → x.phase = .admitting attempt http →
    s.posted.get? http = some (.admission x.request)
  granted : ∀ k x http r response, s.shims.get? k = some x → x.phase = .admitted http r response →
    s.Granted http r x.request.executionId
  launched : ∀ l ∈ s.launches, s.Granted l.http l.admission l.executionId
  alone : ∀ k k' x x' http, s.shims.get? k = some x → s.shims.get? k' = some x' → x.phase.awaited = some http →
    x'.phase.awaited = some http → k = k'
  spent : ∀ l ∈ s.launches, ∀ k x, s.shims.get? k = some x → x.phase.awaited ≠ some l.http
  once : (s.launches.map Launch.http).Nodup

theorem Sound.awaited_lt (h : s.Sound) (hk : s.shims.get? k = some x) {http : ℕ} (hx : x.phase.awaited = some http) :
    http < s.minted := by
  cases hp : x.phase with
  | admitting attempt i =>
    rw [hp] at hx
    cases hx
    exact h.fresh _ _ (h.waiting k x attempt http hk hp)
  | admitted i r response =>
    rw [hp] at hx
    cases hx
    obtain ⟨q, response', hq, -⟩ := h.granted k x http r response hk hp
    exact h.taken _ _ hq
  | running r => simp [hp, ShimPhase.awaited] at hx
  | completing attempt i r => simp [hp, ShimPhase.awaited] at hx
  | returned => simp [hp, ShimPhase.awaited] at hx

theorem Sound.putShim (h : s.Sound) (k : ℕ) (request : Request) (phase : ShimPhase)
    (hwaiting : ∀ attempt http, phase = .admitting attempt http → s.posted.get? http = some (.admission request))
    (hgranted : ∀ http r response, phase = .admitted http r response → s.Granted http r request.executionId)
    (halone : ∀ http, phase.awaited = some http →
      (∀ k' x', k' ≠ k → s.shims.get? k' = some x' → x'.phase.awaited ≠ some http) ∧
        ∀ l ∈ s.launches, l.http ≠ http) :
    (s.putShim k request phase).Sound := by
  have hget : ∀ k' x', (s.putShim k request phase).shims.get? k' = some x' →
      (k' = k ∧ x' = ⟨request, phase⟩) ∨ (k' ≠ k ∧ s.shims.get? k' = some x') := by
    intro k' x' hx
    simp only [Fleet.putShim, PyDict.get?_set] at hx
    split_ifs at hx with hk
    · exact .inl ⟨hk, (Option.some.inj hx).symm⟩
    · exact .inr ⟨hk, hx⟩
  refine ⟨h.owned, h.taken, h.fresh, h.asked, ?_, ?_, h.launched, ?_, ?_, h.once⟩
  · intro k' x' attempt http hx hp
    rcases hget k' x' hx with ⟨-, rfl⟩ | ⟨-, hx⟩
    · exact hwaiting attempt http hp
    · exact h.waiting k' x' attempt http hx hp
  · intro k' x' http r response hx hp
    rcases hget k' x' hx with ⟨-, rfl⟩ | ⟨-, hx⟩
    · exact hgranted http r response hp
    · exact h.granted k' x' http r response hx hp
  · intro k₁ k₂ x₁ x₂ http h₁ h₂ hp₁ hp₂
    rcases hget k₁ x₁ h₁ with ⟨rfl, rfl⟩ | ⟨hne₁, g₁⟩
    · rcases hget k₂ x₂ h₂ with ⟨rfl, -⟩ | ⟨hne₂, g₂⟩
      · rfl
      · exact absurd hp₂ ((halone http hp₁).1 k₂ x₂ hne₂ g₂)
    · rcases hget k₂ x₂ h₂ with ⟨rfl, rfl⟩ | ⟨hne₂, g₂⟩
      · exact absurd hp₁ ((halone http hp₂).1 k₁ x₁ hne₁ g₁)
      · exact h.alone k₁ k₂ x₁ x₂ http g₁ g₂ hp₁ hp₂
  · intro l hl k' x' hx hp
    rcases hget k' x' hx with ⟨-, rfl⟩ | ⟨-, hx⟩
    · exact (halone l.http hp).2 l hl rfl
    · exact h.spent l hl k' x' hx hp

theorem Sound.park (h : s.Sound) (k : ℕ) (request : Request) {phase : ShimPhase} (hp : phase.awaited = none) :
    (s.putShim k request phase).Sound := by
  refine h.putShim k request phase ?_ ?_ ?_
  · rintro attempt http rfl
    cases hp
  · rintro http r response rfl
    cases hp
  · intro http hx
    rw [hp] at hx
    cases hx

theorem Sound.post (h : s.Sound) (a : Action) : (s.post a).Sound := by
  have hold : ∀ i b, s.posted.get? i = some b → (s.post a).posted.get? i = some b := by
    intro i b hi
    have hlt := h.fresh i b hi
    exact (PyDict.get?_set_ne _ _ (by omega)).trans hi
  refine ⟨h.owned, ?_, ?_, ?_, ?_, h.granted, h.launched, h.alone, h.spent, h.once⟩
  · intro i p hi
    have hlt := h.taken i p hi
    simp only [Fleet.post]
    omega
  · intro i b hi
    simp only [Fleet.post, PyDict.get?_set] at hi ⊢
    split_ifs at hi with hm
    · omega
    · have hlt := h.fresh i b hi
      omega
  · intro i p q hi hq
    exact hold i _ (h.asked i p q hi hq)
  · intro k x attempt http hk hx
    exact hold http _ (h.waiting k x attempt http hk hx)

theorem Sound.ask (h : s.Sound) (k : ℕ) (request : Request) (attempt : ℕ) :
    ((s.post (.admission request)).putShim k request (.admitting attempt s.minted)).Sound := by
  refine (h.post _).putShim k request _ ?_ ?_ ?_
  · rintro attempt' http hp
    cases hp
    exact PyDict.get?_set_self ..
  · rintro http r response hp
    cases hp
  · rintro http hp
    cases hp
    refine ⟨?_, ?_⟩
    · intro k' x' _ hx hp
      exact Nat.lt_irrefl _ (h.awaited_lt hx hp)
    · intro l hl he
      obtain ⟨q, response, hq, -⟩ := h.launched l hl
      have hlt := h.taken _ _ hq
      omega

theorem Sound.control (h : s.Sound) {i : ℕ} {a : Action} {c : State} {p : Phase}
    (hn : s.control.next (i, a) = some (c, p)) (hi : i < s.minted)
    (ha : ∀ q, a = .admission q → s.posted.get? i = some (.admission q)) : ({ s with control := c } : Fleet).Sound := by
  obtain ⟨hreq, hasked⟩ := State.asked_next hn
  have hgranted : ∀ http r e, s.Granted http r e → ({ s with control := c } : Fleet).Granted http r e := by
    rintro http r e ⟨q, response, hq, he⟩
    exact ⟨q, response, State.delivered_next hn hq, he⟩
  refine ⟨h.owned.next hn, ?_, h.fresh, ?_, h.waiting, ?_, ?_, h.alone, h.spent, h.once⟩
  · intro j p' hj
    have hj : c.requests.get? j = some p' := hj
    rw [hreq, PyDict.get?_set] at hj
    split_ifs at hj with hji
    · rw [hji]
      exact hi
    · exact h.taken j p' hj
  · intro j p' q hj hq
    have hj : c.requests.get? j = some p' := hj
    rw [hreq, PyDict.get?_set] at hj
    split_ifs at hj with hji
    · cases hj
      rcases hasked q hq with ⟨hadm, -⟩ | ⟨p'', hp'', hq''⟩
      · rw [hji]
        exact ha q hadm
      · rw [hji]
        exact h.asked i p'' q hp'' hq''
    · exact h.asked j p' q hj hq
  · intro k x http r response hk hx
    exact hgranted _ _ _ (h.granted k x http r response hk hx)
  · intro l hl
    exact hgranted _ _ _ (h.launched l hl)

theorem Sound.runControl (h : s.Sound) {i : ℕ} {a : Action} (hn : s.runControl i a = some t) (hi : i < s.minted)
    (ha : ∀ q, a = .admission q → s.posted.get? i = some (.admission q)) : t.Sound := by
  obtain ⟨⟨c, p⟩, hc, rfl⟩ := Option.map_eq_some_iff.mp hn
  exact h.control hc hi ha

theorem Sound.launch (h : s.Sound) (hk : s.shims.get? k = some x) {http r : ℕ} {response : Fields}
    (hx : x.phase = .admitted http r response) :
    ({ s.putShim k x.request (.running r) with
      launches := ⟨k, http, x.request.executionId, r⟩ :: s.launches } : Fleet).Sound := by
  have hp := h.park k x.request (rfl : (ShimPhase.running r).awaited = none)
  have hawaited : x.phase.awaited = some http := by rw [hx]; rfl
  refine ⟨hp.owned, hp.taken, hp.fresh, hp.asked, hp.waiting, hp.granted, ?_, hp.alone, ?_, ?_⟩
  · intro l hl
    rcases List.mem_cons.mp hl with rfl | hl
    · exact h.granted k x http r response hk hx
    · exact h.launched l hl
  · intro l hl k' x' hx' hp'
    rcases List.mem_cons.mp hl with rfl | hl
    · simp only [Fleet.putShim, PyDict.get?_set] at hx'
      split_ifs at hx' with hkk
      · cases hx'
        cases hp'
      · exact hkk (h.alone k' k x' x http hx' hk hp' hawaited)
    · exact hp.spent l hl k' x' hx' hp'
  · rw [List.map_cons, List.nodup_cons]
    refine ⟨?_, h.once⟩
    intro hmem
    obtain ⟨l, hl, he⟩ := List.mem_map.mp hmem
    exact h.spent l hl k x hk (hawaited.trans (congrArg some he.symm))

theorem Sound.answer (h : s.Sound) (hk : s.shims.get? k = some x) {attempt http : ℕ}
    (hx : x.phase = .admitting attempt http) (hn : s.answer k x.request http = some t) : t.Sound := by
  unfold Fleet.answer at hn
  split at hn
  · rename_i r q response duplicate hget
    cases hn
    split_ifs with hbad
    · exact h.park k x.request rfl
    · have hduplicate : duplicate = false := by
        cases duplicate with
        | false => rfl
        | true => exact absurd (.inr rfl) hbad
      subst hduplicate
      have hawaited : x.phase.awaited = some http := by rw [hx]; rfl
      have hposted := h.waiting k x attempt http hk hx
      refine h.putShim k x.request _ ?_ ?_ ?_
      · rintro attempt' http' hp
        cases hp
      · rintro http' r' response' hp
        cases hp
        have hasked := h.asked http _ q hget rfl
        rw [hposted, Option.some.injEq, Action.admission.injEq] at hasked
        exact ⟨q, response, hget, congrArg Request.executionId hasked.symm⟩
      · rintro http' hp
        cases hp
        refine ⟨?_, ?_⟩
        · intro k' x' hne hx' hp'
          exact hne (h.alone k' k x' x http hx' hk hp' hawaited)
        · rintro l hl rfl
          exact h.spent l hl k x hk hawaited
  · cases hn

theorem Sound.next (h : s.Sound) {a : FleetAct} {e : Unit} (hn : s.next a = some (t, e)) : t.Sound := by
  cases a with
  | spawn k request =>
    simp only [Fleet.next] at hn
    split_ifs at hn
    cases hn
    exact h.ask k request 0
  | arrive i =>
    simp only [Fleet.next] at hn
    split_ifs at hn
    obtain ⟨a, ha, hc⟩ := Option.bind_eq_some_iff.mp hn
    obtain ⟨u, hu, he⟩ := Option.map_eq_some_iff.mp hc
    cases he
    refine h.runControl hu (h.fresh i a ha) ?_
    rintro q rfl
    exact ha
  | serve i a =>
    simp only [Fleet.next] at hn
    split_ifs at hn with hmoves
    obtain ⟨u, hu, he⟩ := Option.map_eq_some_iff.mp hn
    cases he
    obtain ⟨⟨c, p⟩, hc, rfl⟩ := Option.map_eq_some_iff.mp hu
    refine h.control hc ?_ ?_
    · cases hi : s.control.requests.get? i with
      | some p' => exact h.taken i p' hi
      | none => cases a <;> simp [State.next, hi, Action.moves] at hc hmoves
    · rintro q rfl
      cases hmoves
  | notice a =>
    simp only [Fleet.next] at hn
    split_ifs at hn with hnoticed
    obtain ⟨u, hu, he⟩ := Option.map_eq_some_iff.mp hn
    cases he
    refine (h.post a).runControl hu (Nat.lt_succ_self _) ?_
    rintro q rfl
    cases hnoticed
  | receive k =>
    obtain ⟨x, hk, hc⟩ := Option.bind_eq_some_iff.mp hn
    split at hc
    · rename_i attempt http hx
      obtain ⟨u, hu, he⟩ := Option.map_eq_some_iff.mp hc
      cases he
      exact h.answer hk hx hu
    · obtain ⟨u, hu, he⟩ := Option.map_eq_some_iff.mp hc
      cases he
      unfold Fleet.acknowledge at hu
      split at hu
      · cases hu
        exact h.park k x.request rfl
      · cases hu
    · cases hc
  | lose k =>
    obtain ⟨x, hk, hc⟩ := Option.bind_eq_some_iff.mp hn
    split at hc
    · cases hc
      unfold Fleet.repost
      split_ifs
      · exact h.ask k x.request _
      · exact h.park k x.request rfl
    · obtain ⟨a, -, he⟩ := Option.map_eq_some_iff.mp hc
      cases he
      unfold Fleet.repost
      split_ifs
      · exact (h.post a).park k x.request rfl
      · exact h.park k x.request rfl
    · cases hc
  | fail k =>
    obtain ⟨x, hk, hc⟩ := Option.map_eq_some_iff.mp hn
    cases hc
    exact h.park k x.request rfl
  | launch k =>
    obtain ⟨x, hk, hc⟩ := Option.bind_eq_some_iff.mp hn
    split at hc
    · rename_i http r response hx
      cases hc
      exact h.launch hk hx
    · cases hc
  | reap k body =>
    obtain ⟨x, hk, hc⟩ := Option.bind_eq_some_iff.mp hn
    split at hc
    · cases hc
      exact (h.post _).park k x.request rfl
    · cases hc
  | unregister =>
    cases hn
    exact ⟨h.owned, h.taken, h.fresh, h.asked, h.waiting, h.granted, h.launched, h.alone, h.spent, h.once⟩
  | discard =>
    cases hn
    refine ⟨⟨h.owned.table, h.owned.held, h.owned.unique⟩, h.taken, h.fresh, h.asked, h.waiting, h.granted, h.launched,
      h.alone, h.spent, h.once⟩

theorem Sound.start (h : Start s) : s.Sound := by
  obtain ⟨c, hc, rfl⟩ := h
  obtain ⟨abandon, start, rfl⟩ := hc
  refine ⟨.start ⟨abandon, start, rfl⟩, ?_, ?_, ?_, ?_, ?_, ?_, ?_, ?_, ?_⟩ <;> simp

def Admits (s : Fleet) (executionId : Value) (r : ℕ) : Prop :=
  s.control.session.executions.get? executionId = some r ∧ (s.control.session.objects r).admission.isSome

structure LaunchedOnce (s : Fleet) : Prop where
  executions : (s.launches.map Launch.executionId).Nodup
  admissions : (s.launches.map Launch.admission).Nodup
  held : ∀ l ∈ s.launches, s.Admits l.executionId l.admission

theorem Sound.admits (h : s.Sound) {http r : ℕ} {e : Value} (hg : s.Granted http r e) : s.Admits e r := by
  obtain ⟨q, response, hq, rfl⟩ := hg
  obtain ⟨⟨-, hget⟩, hid, -, hadmission⟩ := h.owned.held http r _ ⟨hq, rfl⟩
  refine ⟨?_, ?_⟩
  · rw [← hid]
    exact hget
  · rw [hadmission]
    rfl

theorem Sound.same_http (h : s.Sound) {l m : Launch} (hl : l ∈ s.launches) (hm : m ∈ s.launches)
    (hr : l.admission = m.admission) : l.http = m.http := by
  obtain ⟨q, response, hq, -⟩ := h.launched l hl
  obtain ⟨q', response', hq', -⟩ := h.launched m hm
  rw [← hr] at hq'
  exact h.owned.unique _ _ _ _ _ ⟨hq, rfl⟩ ⟨hq', rfl⟩

theorem Sound.launchedOnce (h : s.Sound) : s.LaunchedOnce := by
  have hheld : ∀ l ∈ s.launches, s.Admits l.executionId l.admission := fun l hl => h.admits (h.launched l hl)
  have hpairs : s.launches.Pairwise fun l m => l.http ≠ m.http := List.pairwise_map.mp h.once
  refine ⟨?_, ?_, hheld⟩
  · refine List.pairwise_map.mpr (hpairs.imp_of_mem ?_)
    intro l m hl hm hne he
    refine hne (h.same_http hl hm ?_)
    have hl' := (hheld l hl).1
    rw [he, (hheld m hm).1] at hl'
    exact (Option.some.inj hl').symm
  · refine List.pairwise_map.mpr (hpairs.imp_of_mem ?_)
    intro l m hl hm hne hr
    exact hne (h.same_http hl hm hr)

theorem launched_at_most_once (h : Reachable system s) : s.LaunchedOnce :=
  (Reachable.invariant (I := Sound) (fun _ hs => .start hs) (fun _ _ _ hs hstep => hs.next hstep) h).launchedOnce

theorem launched_at_most_once_rolled_back :
    let s := (trace next {}
      [.spawn 0 (State.command 1), .arrive 0, .serve 0 (.admitted (.ok ∅)), .serve 0 .disconnect, .lose 0, .arrive 1,
        .serve 0 (.abandoned (.ok ())), .serve 1 (.wake false), .serve 1 .deliver, .receive 0,
        .spawn 1 (State.command 1), .arrive 2, .serve 2 (.admitted (.ok ∅)), .serve 2 .deliver, .receive 1, .launch 1,
        .spawn 2 (State.command 1), .arrive 3, .serve 3 .deliver, .receive 2, .reap 1 ∅, .arrive 4,
        .serve 4 (.completed (.ok ∅)), .receive 1]).1
    s.launches = [⟨1, 2, .text "e", 1⟩] ∧ s.LaunchedOnce :=
  ⟨by decide +kernel, launched_at_most_once ⟨_, _, ⟨{}, ⟨true, true, rfl⟩, rfl⟩, run_trace Start next _ _⟩⟩

end Fleet

end ClawBox.Control
