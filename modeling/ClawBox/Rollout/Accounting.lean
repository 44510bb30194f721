import ClawBox.Rollout.Scheduler

namespace ClawBox.Rollout

open Transition Raising

def Pc.waitsFor : Pc → Option String
  | .preparing n _ | .acquiring n => some n
  | _ => none

def Pc.holds : Pc → Option String
  | .serving n | .closing n _ | .releasing n => some n
  | _ => none

def Pc.excluded : Pc → List String
  | .preparing _ excluded | .reselecting excluded => excluded
  | _ => []

def Pc.unprepared : Pc → Bool
  | .start | .preparing _ _ | .reselecting _ => true
  | _ => false

def waitsAt (n : String) (_ : ℕ) (x : RolloutRun) : ℤ := if x.pc.waitsFor = some n then 1 else 0

def holdsAt (n : String) (_ : ℕ) (x : RolloutRun) : ℤ := if x.pc.holds = some n then 1 else 0

theorem leastBy_mem {key : String → ℚ} {l : List String} {n : String} (h : leastBy key l = some n) : n ∈ l := by
  induction l generalizing n with
  | nil => cases h
  | cons m l ih =>
    unfold leastBy at h
    cases hl : leastBy key l with
    | none =>
      rw [hl] at h
      exact Option.some.inj h ▸ List.mem_cons_self
    | some b =>
      rw [hl] at h
      simp only at h
      split_ifs at h with hb
      · exact Option.some.inj h ▸ List.mem_cons_of_mem _ (ih hl)
      · exact Option.some.inj h ▸ List.mem_cons_self

theorem select_feasible {policy : Policy} {nodes : List String} {source n : String} {feasible : String → Bool}
    {e : Estimates} (hsource : source ∈ nodes) (h : select policy nodes source feasible e = some n) :
    n ∈ nodes ∧ feasible n = true := by
  unfold select at h
  cases policy with
  | affinity =>
    simp only at h
    split_ifs at h with hf
    exact Option.some.inj h ▸ ⟨hsource, hf⟩
  | loadAware =>
    simpa using leastBy_mem h
  | snapshotAware =>
    simp only at h
    split at h
    · cases h
    · rename_i m hm
      split_ifs at h with hs
      · exact Option.some.inj h ▸ ⟨hsource, hs.2.1⟩
      · obtain rfl := Option.some.inj h
        simpa using leastBy_mem hm

@[simp] theorem run_meet_none (k : Unit → Store Unit) (s : Storage) : (meet none >>= k).run s = (k ()).run s := rfl

@[simp] theorem run_meet_some (e : Fault) (k : Unit → Store Unit) (s : Storage) :
    (meet (some e) >>= k).run s = (.error e, s) := rfl

structure Trouble.Contained (x : Trouble) (mode : TransferMode) (package : Package) (s : Storage) : Prop where
  fill : x.fill = none
  sample : x.sample = none
  unlink : x.unlink = none
  check : x.check ≠ some .other
  create : x.create ≠ some .other
  upload : x.upload ≠ some .other
  download : x.download ≠ some .other
  verify : x.verify ≠ some .other
  resample : x.resample ≠ some .other
  relay : mode = .peerDirect ∨ x.upload.isSome ∨ (s.sharedRootfsCached.get? package.key).isSome ∨
    x.download = none ∧ x.verify = none

theorem eq_os_of_ne {f : Option Fault} (h : f ≠ some .other) : f = none ∨ f = some .os := by
  cases f with
  | none => exact .inl rfl
  | some e => cases e with
    | os => exact .inr rfl
    | other => exact absurd rfl h

section Prepare

variable {mode : TransferMode} {package : Package} {target : String} {id : ℕ} {x : Trouble} {s : Storage}

theorem fetch_run (hx : x.Contained mode package s) (u : Storage) :
    (∃ t, (meet x.download >>= fun _ => meet x.verify >>= fun _ =>
        modify (fun s => { s with rootfsCached := s.rootfsCached.add (package.key, target) }) >>= fun _ =>
          meet x.sample).run u = (.ok (), t) ∧ t.branches = u.branches) ∨
      (x.download ≠ none ∨ x.verify ≠ none) ∧ (meet x.download >>= fun _ => meet x.verify >>= fun _ =>
        modify (fun s => { s with rootfsCached := s.rootfsCached.add (package.key, target) }) >>= fun _ =>
          meet x.sample).run u = (.error .os, u) := by
  rcases eq_os_of_ne hx.download with hd | hd
  · rcases eq_os_of_ne hx.verify with hv | hv
    · rw [hd, hv, hx.sample]
      exact .inl ⟨_, rfl, rfl⟩
    · rw [hd, hv]
      exact .inr ⟨by simp, rfl⟩
  · rw [hd]
    exact .inr ⟨by simp, rfl⟩

theorem stage_run (hx : x.Contained mode package s) (u : Storage) (hu : u.sharedRootfsCached = s.sharedRootfsCached) :
    (∃ t, (stage mode package target x).run u = (.ok (), t) ∧ t.branches = u.branches) ∨
      (stage mode package target x).run u = (.error .os, u) := by
  unfold stage
  rw [run_get_bind, run_ite]
  split_ifs with hhit
  · exact .inl ⟨u, rfl, rfl⟩
  · cases mode with
    | peerDirect =>
      rcases fetch_run hx u with h | ⟨-, h⟩
      · exact .inl h
      · exact .inr h
    | sharedRelay =>
      simp only [relay]
      by_cases hshared : (u.sharedRootfsCached.get? package.key).isSome
      · rw [run_bind, run_get_bind, run_ite, if_pos hshared]
        rcases fetch_run hx u with h | ⟨-, h⟩
        · exact .inl h
        · exact .inr h
      · rw [run_bind, run_get_bind, run_ite, if_neg hshared]
        rcases eq_os_of_ne hx.upload with hup | hup
        · have hdone : x.download = none ∧ x.verify = none := by
            rcases hx.relay with h | h | h | h
            · cases h
            · simp [hup] at h
            · rw [← hu] at h
              exact absurd h hshared
            · exact h
          rw [hup]
          rcases fetch_run hx
            { u with sharedRootfsCached := u.sharedRootfsCached.add package.key } with ⟨t, h, hb⟩ | ⟨h, -⟩
          · exact .inl ⟨t, h, hb⟩
          · simp [hdone] at h
        · rw [hup]
          exact .inr rfl

theorem dropBranch_run (hx : x.Contained mode package s) (u : Storage) :
    (dropBranch id target x .os).run u =
      (.error .os, { u with branches := u.branches.discard (target, id) }) := by
  unfold dropBranch
  rcases eq_os_of_ne hx.resample with hr | hr
  · rw [hx.unlink, hr]
    rfl
  · rw [hx.unlink, hr]
    rfl

theorem prepareRollout_run (hx : x.Contained mode package s) (hfree : s.branches.get? (target, id) = none) :
    (∃ t, (prepareRollout mode package target id x).run s = (.ok (), t) ∧ t.branches = s.branches.add (target, id)) ∨
      ∃ t, (prepareRollout mode package target id x).run s = (.error .os, t) ∧ t = s := by
  unfold prepareRollout reserveBranch
  rcases eq_os_of_ne hx.check with hc | hc
  · rw [hc, run_meet_none, run_bind, run_get_bind, run_ite, hfree, if_neg (by simp)]
    rcases eq_os_of_ne hx.create with hcr | hcr
    · rw [hcr, run_meet_none, run_modify_bind, hx.fill]
      simp only [meet, run_pure]
      rw [run_tryExcept]
      rcases stage_run hx { s with branches := s.branches.add (target, id) } rfl with
        ⟨t, h, hb⟩ | h
      · rw [h]
        exact .inl ⟨t, rfl, hb⟩
      · rw [h]
        refine .inr ⟨_, dropBranch_run hx _, ?_⟩
        simp only [PySet.add, PySet.discard, PyDict.pop_set_self, PyDict.pop_of_get?_none hfree]
    · rw [hcr]
      exact .inr ⟨s, rfl, rfl⟩
  · rw [hc]
    exact .inr ⟨s, rfl, rfl⟩

end Prepare

namespace State

variable {c : Config} {s t : State} {a : Action} {out : Outcome}

structure Placed (s : State) (x : RolloutRun) : Prop where
  source : (s.nodes.get? x.package.sourceNode).isSome
  waits : ∀ n, x.pc.waitsFor = some n → (s.nodes.get? n).isSome ∧ n ∉ x.pc.excluded
  holds : ∀ n, x.pc.holds = some n → (s.nodes.get? n).isSome
  excluded : x.pc.excluded.Nodup ∧ ∀ n ∈ x.pc.excluded, (s.nodes.get? n).isSome

structure Accounted (s : State) : Prop where
  waiting : ∀ n y, s.nodes.get? n = some y → y.waiting = s.rollouts.sum (waitsAt n)
  active : ∀ n y, s.nodes.get? n = some y → y.active = s.rollouts.sum (holdsAt n)
  slots : ∀ n y, s.nodes.get? n = some y → y.active ≤ y.slots ∧ y.active * y.vmMemoryMib ≤ y.memoryLimitMib
  placed : ∀ i x, s.rollouts.get? i = some x → s.Placed x
  branches : ∀ n i, (s.storage.branches.get? (n, i)).isSome →
    ∃ x, s.rollouts.get? i = some x ∧ x.pc.unprepared = false

/-- No failure of the step escapes the handlers: `prepare_rollout` raises only `OSError`s, none of them after the
branch file is there and outside the `try`, after a cache entry was made or in the handler's own `unlink`; and
`kill_sandbox` returns. -/
def contained (c : Config) (s : State) : Action → Bool
  | .prepare i x =>
    x.fill = none && x.sample = none && x.unlink = none && x.check ≠ some .other && x.create ≠ some .other &&
      x.upload ≠ some .other && x.download ≠ some .other && x.verify ≠ some .other && x.resample ≠ some .other &&
      match s.rollouts.get? i with
      | some r => c.mode = .peerDirect || x.upload.isSome || (s.storage.sharedRootfsCached.get? r.package.key).isSome ||
        x.download = none && x.verify = none
      | none => true
  | .kill _ fails => !fails
  | _ => true

theorem isSome_changeNode (s : State) (n m : String) (f : NodeState → NodeState) :
    ((s.changeNode n f).nodes.get? m).isSome = (s.nodes.get? m).isSome := by
  unfold changeNode
  cases hn : s.nodes.get? n with
  | none => rfl
  | some y =>
    simp only [PyDict.get?_set]
    split_ifs with hm
    · rw [hm, hn]
      rfl
    · rfl

theorem get?_changeNode (s : State) {n m : String} {f : NodeState → NodeState} {y : NodeState}
    (h : (s.changeNode n f).nodes.get? m = some y) :
    m = n ∧ (∃ z, s.nodes.get? n = some z ∧ y = f z) ∨ m ≠ n ∧ s.nodes.get? m = some y := by
  unfold changeNode at h
  cases hn : s.nodes.get? n with
  | none =>
    rw [hn] at h
    refine .inr ⟨?_, h⟩
    rintro rfl
    rw [hn] at h
    cases h
  | some z =>
    simp only [hn, PyDict.get?_set] at h
    split_ifs at h with hm
    · exact .inl ⟨hm, z, rfl, (Option.some.inj h).symm⟩
    · exact .inr ⟨hm, h⟩

@[simp] theorem rollouts_changeNode (s : State) (n : String) (f : NodeState → NodeState) :
    (s.changeNode n f).rollouts = s.rollouts := by
  unfold changeNode
  split <;> rfl

@[simp] theorem storage_changeNode (s : State) (n : String) (f : NodeState → NodeState) :
    (s.changeNode n f).storage = s.storage := by
  unfold changeNode
  split <;> rfl

theorem Placed.of_nodes {x : RolloutRun} (h : s.Placed x)
    (hn : ∀ n, (t.nodes.get? n).isSome = (s.nodes.get? n).isSome) :
    t.Placed x := by
  refine ⟨?_, ?_, ?_, ?_⟩
  · rw [hn]
    exact h.source
  · intro n hw
    rw [hn]
    exact h.waits n hw
  · intro n hw
    rw [hn]
    exact h.holds n hw
  · refine ⟨h.excluded.1, ?_⟩
    intro n hw
    rw [hn]
    exact h.excluded.2 n hw

theorem Accounted.move (h : s.Accounted) {i : ℕ} {x : RolloutRun} (pc : Pc) (hx : s.rollouts.get? i = some x)
    (hroll : t.rollouts = s.rollouts.set i { x with pc := pc })
    (hnodes : ∀ n, (t.nodes.get? n).isSome = (s.nodes.get? n).isSome)
    (hcount : ∀ n y, t.nodes.get? n = some y → ∃ z, s.nodes.get? n = some z ∧
      y.waiting = z.waiting - waitsAt n i x + waitsAt n i { x with pc := pc } ∧
      y.active = z.active - holdsAt n i x + holdsAt n i { x with pc := pc } ∧
      (y.active ≤ y.slots ∧ y.active * y.vmMemoryMib ≤ y.memoryLimitMib))
    (hplaced : t.Placed { x with pc := pc })
    (hbranches : ∀ n j, (t.storage.branches.get? (n, j)).isSome →
      j = i ∧ pc.unprepared = false ∨ (s.storage.branches.get? (n, j)).isSome ∧ (j = i → pc.unprepared = false)) :
    t.Accounted := by
  refine ⟨?_, ?_, ?_, ?_, ?_⟩
  · intro n y hy
    obtain ⟨z, hz, hwaiting, -, -⟩ := hcount n y hy
    rw [hwaiting, h.waiting n z hz, hroll, PyDict.sum_set_old _ _ hx]
  · intro n y hy
    obtain ⟨z, hz, -, hactive, -⟩ := hcount n y hy
    rw [hactive, h.active n z hz, hroll, PyDict.sum_set_old _ _ hx]
  · intro n y hy
    obtain ⟨z, hz, -, -, hslots⟩ := hcount n y hy
    exact hslots
  · intro j y hj
    rw [hroll, PyDict.get?_set] at hj
    split_ifs at hj with hji
    · exact Option.some.inj hj ▸ hplaced
    · exact (h.placed j y hj).of_nodes hnodes
  · intro n j hj
    rw [hroll]
    rcases hbranches n j hj with ⟨rfl, hpc⟩ | ⟨hold, hpc⟩
    · exact ⟨_, PyDict.get?_set_self _ _ _, hpc⟩
    · by_cases hji : j = i
      · subst hji
        exact ⟨_, PyDict.get?_set_self _ _ _, hpc rfl⟩
      · obtain ⟨y, hy, hp⟩ := h.branches n j hold
        exact ⟨y, by rw [PyDict.get?_set_ne _ _ hji, hy], hp⟩

theorem Accounted.stay (h : s.Accounted) {i : ℕ} {x : RolloutRun} {pc : Pc} (hx : s.rollouts.get? i = some x)
    (hwaits : pc.waitsFor = x.pc.waitsFor) (hholds : pc.holds = x.pc.holds) (hexcluded : pc.excluded = [])
    (hpc : pc.unprepared = false ∨ x.pc.unprepared = true ∧ pc.unprepared = true) : (s.moveTo i x pc).Accounted := by
  have hold := h.placed i x hx
  refine h.move pc hx rfl (fun _ => rfl) ?_ ?_ ?_
  · intro n y hy
    refine ⟨y, hy, ?_, ?_, h.slots n y hy⟩
    · simp [waitsAt, hwaits]
    · simp [holdsAt, hholds]
  · refine ⟨hold.source, ?_, ?_, ?_⟩
    · intro n hn
      rw [hexcluded]
      exact ⟨(hold.waits n (hwaits ▸ hn)).1, by simp⟩
    · intro n hn
      exact hold.holds n (hholds ▸ hn)
    · rw [hexcluded]
      exact ⟨List.nodup_nil, by simp⟩
  · intro n j hj
    refine .inr ⟨hj, ?_⟩
    rintro rfl
    obtain ⟨y, hy, hp⟩ := h.branches n j hj
    rcases hpc with hpc | ⟨hpc, -⟩
    · exact hpc
    · rw [hx] at hy
      obtain rfl := Option.some.inj hy
      rw [hpc] at hp
      cases hp

theorem Accounted.free (h : s.Accounted) {i : ℕ} {x : RolloutRun} (hx : s.rollouts.get? i = some x)
    (hpc : x.pc.unprepared = true) (n : String) : s.storage.branches.get? (n, i) = none := by
  cases hb : s.storage.branches.get? (n, i) with
  | none => rfl
  | some u =>
    obtain ⟨y, hy, hp⟩ := h.branches n i (by rw [hb]; rfl)
    rw [hx] at hy
    obtain rfl := Option.some.inj hy
    rw [hpc] at hp
    cases hp

theorem Accounted.turn (h : s.Accounted) {i : ℕ} {x : RolloutRun} (hx : s.rollouts.get? i = some x) (n : String)
    (f : NodeState → NodeState) (pc : Pc)
    (hf : ∀ z, s.nodes.get? n = some z →
      (f z).waiting = z.waiting - waitsAt n i x + waitsAt n i { x with pc := pc } ∧
      (f z).active = z.active - holdsAt n i x + holdsAt n i { x with pc := pc } ∧
      ((f z).active ≤ (f z).slots ∧ (f z).active * (f z).vmMemoryMib ≤ (f z).memoryLimitMib))
    (hothers : ∀ m, m ≠ n → x.pc.waitsFor ≠ some m ∧ x.pc.holds ≠ some m ∧ pc.waitsFor ≠ some m ∧ pc.holds ≠ some m)
    (hplaced : s.Placed { x with pc := pc }) (hpc : pc.unprepared = false ∨ x.pc.unprepared = true) :
    ((s.changeNode n f).moveTo i x pc).Accounted := by
  refine h.move pc hx (by simp [moveTo]) (isSome_changeNode s n · f) ?_ ?_ ?_
  · intro m y hy
    rcases get?_changeNode s hy with ⟨rfl, z, hz, rfl⟩ | ⟨hm, hy⟩
    · exact ⟨z, hz, hf z hz⟩
    · obtain ⟨h₁, h₂, h₃, h₄⟩ := hothers m hm
      refine ⟨y, hy, ?_, ?_, h.slots m y hy⟩
      · simp [waitsAt, h₁, h₃]
      · simp [holdsAt, h₂, h₄]
  · exact hplaced.of_nodes (isSome_changeNode s n · f)
  · intro m j hj
    simp only [moveTo, storage_changeNode] at hj
    refine .inr ⟨hj, ?_⟩
    rintro rfl
    rcases hpc with hpc | hpc
    · exact hpc
    · rw [h.free hx hpc] at hj
      cases hj

theorem Accounted.excluded_lt (h : s.Accounted) {i : ℕ} {x : RolloutRun} (hx : s.rollouts.get? i = some x) {n : String}
    (hn : (s.nodes.get? n).isSome) (hnot : n ∉ x.pc.excluded) : x.pc.excluded.length < s.nodes.keys.length := by
  have hkeys : ∀ m, (s.nodes.get? m).isSome → m ∈ s.nodes.keys := by
    intro m hm
    by_contra hnot
    rw [PyDict.get?_eq_none.mpr hnot] at hm
    cases hm
  obtain ⟨hnd, hknown⟩ := (h.placed i x hx).excluded
  have hsub : n :: x.pc.excluded ⊆ s.nodes.keys := by
    intro m hm
    rcases List.mem_cons.mp hm with rfl | hm
    · exact hkeys m hn
    · exact hkeys m (hknown m hm)
  have hlen := (List.subperm_of_subset (List.nodup_cons.mpr ⟨hnot, hnd⟩) hsub).length_le
  simp only [List.length_cons] at hlen
  omega

theorem Accounted.choose (h : s.Accounted) {i : ℕ} {x : RolloutRun} (hx : s.rollouts.get? i = some x)
    (hpc : x.pc = .start ∨ ∃ excluded, x.pc = .reselecting excluded) (feasible : String → Bool) (e : Estimates) :
    (s.choose c i x x.pc.excluded feasible e).Accounted := by
  have hplace := h.placed i x hx
  have hnowait : x.pc.waitsFor = none ∧ x.pc.holds = none ∧ x.pc.unprepared = true := by
    rcases hpc with hpc | ⟨_, hpc⟩ <;> simp [hpc, Pc.waitsFor, Pc.holds, Pc.unprepared]
  have hsource : x.package.sourceNode ∈ s.nodes.keys := by
    by_contra hnot
    have := hplace.source
    rw [PyDict.get?_eq_none.mpr hnot] at this
    cases this
  unfold State.choose
  split
  · exact h.stay hx hnowait.1.symm hnowait.2.1.symm rfl (.inl rfl)
  · rename_i n hn
    obtain ⟨hmem, hfeasible⟩ := select_feasible hsource hn
    simp only [Bool.and_eq_true, Bool.not_eq_true', List.contains_eq_mem, decide_eq_false_iff_not] at hfeasible
    have hsome : (s.nodes.get? n).isSome := by
      cases hy : s.nodes.get? n with
      | none => exact absurd hmem (PyDict.get?_eq_none.mp hy)
      | some y => rfl
    rw [if_pos (h.excluded_lt hx hsome hfeasible.2)]
    have hwaits : (Pc.preparing n x.pc.excluded).waitsFor = some n := rfl
    have hholds : (Pc.preparing n x.pc.excluded).holds = none := rfl
    refine h.turn hx n _ _ ?_ ?_ ?_ (.inr hnowait.2.2)
    · intro z hz
      refine ⟨?_, ?_, h.slots n z hz⟩
      · simp [waitsAt, hnowait.1, hwaits]
      · simp [holdsAt, hnowait.2.1, hholds]
    · intro m hm
      simp [hnowait.1, hnowait.2.1, hwaits, hholds, Ne.symm hm]
    · refine ⟨hplace.source, ?_, by simp [hholds], hplace.excluded⟩
      intro m hm
      obtain rfl : n = m := by simpa [hwaits] using hm
      exact ⟨hsome, hfeasible.2⟩

theorem Accounted.giveUp (h : s.Accounted) {i : ℕ} {x : RolloutRun} {n : String} {pc : Pc}
    (hx : s.rollouts.get? i = some x) (hpc : x.pc = .preparing n x.pc.excluded)
    (hwaits : pc.waitsFor = none) (hholds : pc.holds = none)
    (hexcluded : pc.excluded = [] ∨ pc.excluded = n :: x.pc.excluded) :
    ((s.changeNode n fun y => { y with waiting := y.waiting - 1 }).moveTo i x pc).Accounted := by
  have hplace := h.placed i x hx
  have hmine : x.pc.waitsFor = some n ∧ x.pc.holds = none ∧ x.pc.unprepared = true := by
    rw [hpc]
    exact ⟨rfl, rfl, rfl⟩
  refine h.turn hx n _ pc ?_ ?_ ?_ (.inr hmine.2.2)
  · intro z hz
    refine ⟨?_, ?_, h.slots n z hz⟩
    · simp [waitsAt, hmine.1, hwaits]
    · simp [holdsAt, hmine.2.1, hholds]
  · intro m hm
    simp [hmine.1, hmine.2.1, hwaits, hholds, Ne.symm hm]
  · refine ⟨hplace.source, by simp [hwaits], by simp [hholds], ?_⟩
    rcases hexcluded with he | he
    · rw [he]
      exact ⟨List.nodup_nil, by simp⟩
    · rw [he]
      have hw := hplace.waits n hmine.1
      refine ⟨List.nodup_cons.mpr ⟨hw.2, hplace.excluded.1⟩, ?_⟩
      intro m hm
      rcases List.mem_cons.mp hm with rfl | hm
      · exact hw.1
      · exact hplace.excluded.2 m hm

theorem contained_iff {i : ℕ} {x : Trouble} {r : RolloutRun} (hr : s.rollouts.get? i = some r)
    (h : contained c s (.prepare i x)) : x.Contained c.mode r.package s.storage := by
  simp only [contained, hr, Bool.and_eq_true, Bool.or_eq_true, decide_eq_true_eq] at h
  obtain ⟨⟨⟨⟨⟨⟨⟨⟨⟨hfill, hsample⟩, hunlink⟩, hcheck⟩, hcreate⟩, hupload⟩, hdownload⟩, hverify⟩, hresample⟩, hrelay⟩ := h
  exact ⟨hfill, hsample, hunlink, hcheck, hcreate, hupload, hdownload, hverify, hresample, by tauto⟩

theorem Accounted.prepare (h : s.Accounted) {i : ℕ} {x : RolloutRun} {node : String} {excluded : List String}
    {y : Trouble} (hx : s.rollouts.get? i = some x) (hpc : x.pc = .preparing node excluded)
    (hy : y.Contained c.mode x.package s.storage) :
    ({ s with storage := ((prepareRollout c.mode x.package node i y).run s.storage).2 }.prepared c i x node excluded
      ((prepareRollout c.mode x.package node i y).run s.storage).1).Accounted := by
  have hexcluded : x.pc.excluded = excluded := by rw [hpc]; rfl
  have hwaits : x.pc.waitsFor = some node := by rw [hpc]; rfl
  have hplace := h.placed i x hx
  have hfree := h.free hx (by rw [hpc]; rfl) node
  rcases prepareRollout_run hy hfree with ⟨t, hrun, hb⟩ | ⟨t, hrun, rfl⟩
  · rw [hrun]
    refine h.move (.acquiring node) hx rfl (fun _ => rfl) ?_ ?_ ?_
    · intro n z hz
      refine ⟨z, hz, ?_, ?_, h.slots n z hz⟩
      · simp [waitsAt, hpc, Pc.waitsFor]
      · simp [holdsAt, hpc, Pc.holds]
    · refine ⟨hplace.source, ?_, by simp [Pc.holds], ⟨List.nodup_nil, by simp [Pc.excluded]⟩⟩
      intro n hn
      exact ⟨(hplace.waits n (hwaits.trans hn)).1, by simp [Pc.excluded]⟩
    · intro n j hj
      simp only [prepared, moveTo, hb, PySet.add, PyDict.get?_set] at hj
      split_ifs at hj with hk
      · exact .inl ⟨(Prod.mk.inj hk).2, rfl⟩
      · exact .inr ⟨hj, fun _ => rfl⟩
  · rw [hrun]
    have hkeep : x.pc = .preparing node x.pc.excluded := by rw [hexcluded, hpc]
    simp only [prepared]
    split_ifs with hpolicy
    · exact h.giveUp hx hkeep rfl rfl (.inl rfl)
    · exact h.giveUp hx hkeep rfl rfl (.inr (by rw [hexcluded]; rfl))

theorem Accounted.acquire (h : s.Accounted) {i : ℕ} {x : RolloutRun} {node : String} {y : NodeState}
    (hx : s.rollouts.get? i = some x) (hpc : x.pc = .acquiring node) (hy : s.nodes.get? node = some y)
    (havailable : y.available) :
    ((s.changeNode node fun y => { y with waiting := y.waiting - 1, active := y.active + 1 }).moveTo i x
      (.serving node)).Accounted := by
  simp only [NodeState.available, Bool.and_eq_true, decide_eq_true_eq] at havailable
  refine h.turn hx node _ _ ?_ ?_ ?_ (.inl rfl)
  · intro z hz
    rw [hy] at hz
    obtain rfl := Option.some.inj hz
    refine ⟨?_, ?_, ?_, havailable.2⟩
    · simp [waitsAt, hpc, Pc.waitsFor]
    · simp [holdsAt, hpc, Pc.holds]
    · dsimp only
      omega
  · intro m hm
    simp [hpc, Pc.waitsFor, Pc.holds, Ne.symm hm]
  · refine ⟨(h.placed i x hx).source, by simp [Pc.waitsFor], ?_, List.nodup_nil, by simp [Pc.excluded]⟩
    intro n hn
    obtain rfl : node = n := by simpa [Pc.holds] using hn
    rw [hy]
    rfl

theorem Accounted.release (h : s.Accounted) {i : ℕ} {x : RolloutRun} {node : String}
    (hx : s.rollouts.get? i = some x) (hpc : x.pc = .releasing node) :
    ((s.changeNode node fun y => { y with active := y.active - 1, completed := y.completed + 1 }).moveTo i x
      .ended).Accounted := by
  refine h.turn hx node _ _ ?_ ?_ ?_ (.inl rfl)
  · intro z hz
    obtain ⟨hslots, hmemory⟩ := h.slots node z hz
    refine ⟨?_, ?_, ?_, ?_⟩
    · simp [waitsAt, hpc, Pc.waitsFor]
    · simp [holdsAt, hpc, Pc.holds]
    · dsimp only
      omega
    · have hpos : (0 : ℤ) ≤ z.vmMemoryMib := Int.natCast_nonneg _
      dsimp only
      rw [Int.sub_mul]
      omega
  · intro m hm
    simp [hpc, Pc.waitsFor, Pc.holds, Ne.symm hm]
  · exact ⟨(h.placed i x hx).source, by simp [Pc.waitsFor], by simp [Pc.holds], List.nodup_nil, by simp [Pc.excluded]⟩

theorem Accounted.begin (h : s.Accounted) {i : ℕ} {package : Package} (hnew : s.rollouts.get? i = none)
    (hsource : package.sourceNode ∈ s.nodes.keys) :
    ({ s with rollouts := s.rollouts.set i { package } } : State).Accounted := by
  refine ⟨?_, ?_, h.slots, ?_, ?_⟩
  · intro n y hy
    rw [h.waiting n y hy, PyDict.sum_set_new _ _ hnew]
    simp [waitsAt, Pc.waitsFor]
  · intro n y hy
    rw [h.active n y hy, PyDict.sum_set_new _ _ hnew]
    simp [holdsAt, Pc.holds]
  · intro j x hj
    simp only [PyDict.get?_set] at hj
    split_ifs at hj with hji
    · obtain rfl := Option.some.inj hj
      refine ⟨?_, by simp [Pc.waitsFor], by simp [Pc.holds], List.nodup_nil, by simp [Pc.excluded]⟩
      cases hs : s.nodes.get? package.sourceNode with
      | none => exact absurd hsource (PyDict.get?_eq_none.mp hs)
      | some y => simp
    · exact (h.placed j x hj).of_nodes fun _ => rfl
  · intro n j hj
    obtain ⟨x, hx, hp⟩ := h.branches n j hj
    have hji : j ≠ i := by
      rintro rfl
      rw [hnew] at hx
      cases hx
    exact ⟨x, by rw [PyDict.get?_set_ne _ _ hji, hx], hp⟩

theorem Accounted.next (h : s.Accounted) (hok : contained c s a) (hn : State.next c s a = some (t, out)) :
    t.Accounted := by
  cases a with
  | begin i package =>
    simp only [State.next, after] at hn
    split at hn
    · rename_i hnew
      split_ifs at hn with hsource
      obtain ⟨rfl, -⟩ := Prod.mk.inj (Option.some.inj hn)
      exact h.begin hnew hsource
    · cases hn
  | fail i =>
    simp only [State.next] at hn
    split at hn
    · rename_i x hx
      split at hn
      · rename_i hpc
        obtain ⟨rfl, -⟩ := Prod.mk.inj (Option.some.inj hn)
        exact h.stay hx (by rw [hpc]; rfl) (by rw [hpc]; rfl) rfl (.inl rfl)
      · rename_i hpc
        obtain ⟨rfl, -⟩ := Prod.mk.inj (Option.some.inj hn)
        exact h.stay hx (by rw [hpc]; rfl) (by rw [hpc]; rfl) rfl (.inl rfl)
      · cases hn
    · cases hn
  | choose i feasible e =>
    simp only [State.next, after] at hn
    split at hn
    · rename_i x hx
      split at hn
      · rename_i hpc
        obtain ⟨rfl, -⟩ := Prod.mk.inj (Option.some.inj hn)
        have hchoose := h.choose (c := c) hx (.inl hpc) feasible e
        rw [show x.pc.excluded = [] by rw [hpc]; rfl] at hchoose
        exact hchoose
      · rename_i excluded hpc
        obtain ⟨rfl, -⟩ := Prod.mk.inj (Option.some.inj hn)
        have hchoose := h.choose (c := c) hx (.inr ⟨excluded, hpc⟩) feasible e
        rw [show x.pc.excluded = excluded by rw [hpc]; rfl] at hchoose
        exact hchoose
      · cases hn
    · cases hn
  | prepare i y =>
    simp only [State.next] at hn
    split at hn
    · rename_i x hx
      split at hn
      · rename_i node excluded hpc
        obtain ⟨rfl, -⟩ := Prod.mk.inj (Option.some.inj hn)
        exact h.prepare hx hpc (contained_iff hx hok)
      · cases hn
    · cases hn
  | acquire i =>
    simp only [State.next, after] at hn
    split at hn
    · rename_i x hx
      split at hn
      · rename_i node hpc
        split at hn
        · cases hn
        · rename_i y hy
          split_ifs at hn with havailable
          obtain ⟨rfl, -⟩ := Prod.mk.inj (Option.some.inj hn)
          exact h.acquire hx hpc hy havailable
      · cases hn
    · cases hn
  | serve i sandbox =>
    simp only [State.next, after] at hn
    split at hn
    · rename_i x hx
      split at hn
      · rename_i node hpc
        obtain ⟨rfl, -⟩ := Prod.mk.inj (Option.some.inj hn)
        exact h.stay hx (by rw [hpc]; rfl) (by rw [hpc]; rfl) rfl (.inl rfl)
      · cases hn
    · cases hn
  | kill i fails =>
    simp only [contained, Bool.not_eq_true'] at hok
    simp only [State.next, after, hok, Bool.and_false, Bool.false_eq_true, if_false] at hn
    split at hn
    · rename_i x hx
      split at hn
      · rename_i node sandbox hpc
        obtain ⟨rfl, -⟩ := Prod.mk.inj (Option.some.inj hn)
        exact h.stay hx (by rw [hpc]; rfl) (by rw [hpc]; rfl) rfl (.inl rfl)
      · cases hn
    · cases hn
  | release i =>
    simp only [State.next, after] at hn
    split at hn
    · rename_i x hx
      split at hn
      · rename_i node hpc
        obtain ⟨rfl, -⟩ := Prod.mk.inj (Option.some.inj hn)
        exact h.release hx hpc
      · cases hn
    · cases hn

theorem Accounted.start (h : Start s) : s.Accounted := by
  obtain ⟨hzero, hroll, hbranches⟩ := h
  refine ⟨?_, ?_, ?_, ?_, ?_⟩
  · intro n y hy
    rw [(hzero n y hy).2, hroll]
    rfl
  · intro n y hy
    rw [(hzero n y hy).1, hroll]
    rfl
  · intro n y hy
    rw [(hzero n y hy).1]
    omega
  · simp [hroll]
  · simp [hbranches]

def Balanced (s : State) : Prop :=
  ∀ n y, s.nodes.get? n = some y →
    0 ≤ y.active ∧ y.active ≤ y.slots ∧ y.active * y.vmMemoryMib ≤ y.memoryLimitMib ∧
      y.waiting = s.rollouts.sum (waitsAt n) ∧ y.active = s.rollouts.sum (holdsAt n)

def Spotless (s t : State) (i : ℕ) : Prop :=
  (∀ n, t.storage.branches.get? (n, i) = none) ∧ t.storage.rootfsCached = s.storage.rootfsCached ∧
    t.storage.sharedRootfsCached = s.storage.sharedRootfsCached

theorem Accounted.balanced (h : s.Accounted) : s.Balanced := by
  intro n y hy
  have hactive := h.active n y hy
  have hslots := h.slots n y hy
  refine ⟨?_, hslots.1, hslots.2, h.waiting n y hy, hactive⟩
  rw [hactive]
  apply PyDict.sum_nonneg
  intro i x _
  unfold holdsAt
  split_ifs <;> omega

theorem Accounted.spotless (h : s.Accounted) {i : ℕ} {y : Trouble} {e : Fault} (hok : contained c s (.prepare i y))
    (hn : State.next c s (.prepare i y) = some (t, .error e)) : s.Spotless t i := by
  simp only [State.next] at hn
  split at hn
  · rename_i x hx
    split at hn
    · rename_i node excluded hpc
      have hfree := h.free hx (by rw [hpc]; rfl)
      obtain ⟨rfl, herror⟩ := Prod.mk.inj (Option.some.inj hn)
      rcases prepareRollout_run (contained_iff hx hok) (hfree node) with ⟨u, hrun, -⟩ | ⟨u, hrun, rfl⟩
      · rw [hrun] at herror
        cases herror
      · have hstorage : ∀ f, (State.prepared c { s with storage := s.storage } i x node excluded (.error f)).storage =
            s.storage := by
          intro f
          cases f <;> simp only [prepared, moveTo]
          split_ifs <;> simp
        rw [hrun]
        refine ⟨?_, congrArg Storage.rootfsCached (hstorage _), congrArg Storage.sharedRootfsCached (hstorage _)⟩
        intro n
        rw [hstorage]
        exact hfree n
    · cases hn
  · cases hn

theorem scheduler_accounting (h : Reachable ((system c).restrict fun s l => contained c s l.1) s) :
    s.Balanced ∧ ∀ i y t e, contained c s (.prepare i y) → next c s (.prepare i y) = some (t, .error e) →
    s.Spotless t i := by
  have hs : s.Accounted := h.invariant (fun _ h => .start h) fun _ _ _ h hstep => h.next hstep.2 hstep.1
  exact ⟨hs.balanced, fun i y t e hok hn => hs.spotless hok hn⟩

def twoNodes : State :=
  { nodes := (PyDict.set ∅ "node0" { slots := 2, memoryLimitMib := 8, vmMemoryMib := 4 }).set "node1"
      { slots := 2, memoryLimitMib := 8, vmMemoryMib := 4 } }

def relayed : Config := ⟨.loadAware, .sharedRelay⟩

def level : Estimates := ⟨fun _ => 0, fun _ => 0, 0⟩

theorem twoNodes_start : Start twoNodes := by
  refine ⟨?_, rfl, rfl⟩
  intro n y hy
  simp only [twoNodes, PyDict.get?_set, PyDict.get?_empty] at hy
  split_ifs at hy <;> exact Option.some.inj hy ▸ ⟨rfl, rfl⟩

theorem scheduler_accounting_reselected :
    let s := (trace (guarded (contained relayed) (next relayed)) twoNodes
      [.begin 0 ⟨"p", "node1"⟩, .choose 0 (fun _ => true) level, .begin 1 ⟨"p", "node1"⟩,
        .prepare 0 { check := some .os }, .choose 0 (fun _ => true) level, .choose 1 (fun n => n == "node0") level,
        .prepare 0 {}, .prepare 1 {}, .acquire 1, .serve 1 true]).1
    (s.nodes.get? "node0").map (·.active) = some 1 ∧ (s.nodes.get? "node1").map (·.waiting) = some 1 ∧ s.Balanced ∧
      ∀ i y t e, contained relayed s (.prepare i y) → next relayed s (.prepare i y) = some (t, .error e) →
        s.Spotless t i :=
  ⟨by decide +kernel, by decide +kernel, scheduler_accounting ⟨twoNodes, _, twoNodes_start,
    run_guarded Start (next relayed) (contained relayed) _ _⟩⟩

def mismatched : State :=
  (trace (next relayed) twoNodes
    [.begin 0 ⟨"p", "node1"⟩, .choose 0 (fun _ => true) level, .prepare 0 { verify := some .other }]).1

def unkilled : State :=
  (trace (next relayed) twoNodes
    [.begin 0 ⟨"p", "node1"⟩, .choose 0 (fun _ => true) level, .prepare 0 {}, .acquire 0, .serve 0 true,
      .kill 0 true]).1

def overfull : State := (trace (next relayed) twoNodes [.begin 0 ⟨"p", "node1"⟩, .choose 0 (fun _ => true) level]).1

theorem scheduler_leaks :
    (Reachable (system relayed) mismatched ∧ (mismatched.rollouts.get? 0).map (·.pc) = some .ended ∧
      ¬mismatched.Balanced) ∧
    (Reachable (system relayed) unkilled ∧ (unkilled.rollouts.get? 0).map (·.pc) = some .ended ∧ ¬unkilled.Balanced) ∧
    (Reachable (system relayed) overfull ∧
      ∃ t, next relayed overfull (.prepare 0 { fill := some .os }) = some (t, .error .os) ∧
      ¬overfull.Spotless t 0) := by
  have hstart := Reachable.start (T := system relayed) twoNodes_start
  refine ⟨⟨hstart.trace _, by decide +kernel, ?_⟩, ⟨hstart.trace _, by decide +kernel, ?_⟩, hstart.trace _, _, rfl, ?_⟩
  · intro hb
    have hwaiting := (hb "node0" ⟨2, 8, 4, 0, 1, 0⟩ (by decide +kernel)).2.2.2.1
    exact absurd hwaiting (by decide +kernel)
  · intro hb
    have hactive := (hb "node0" ⟨2, 8, 4, 1, 0, 0⟩ (by decide +kernel)).2.2.2.2
    exact absurd hactive (by decide +kernel)
  · intro hs
    exact absurd (hs.1 "node0") (by decide +kernel)

end State

end ClawBox.Rollout
