import ClawBox.Snapshot.PoolAccounting
import ClawBox.Snapshot.Victims

namespace ClawBox.Snapshot

open Transition

variable {τ : Type}

namespace Pool

def Present (p : Pool τ) (v : Victim) : Prop := ∃ m, p.manifests.get? v.key = some m ∧ m.ident = v.ident

structure Calm (p q : Pool τ) : Prop where
  kept : ∀ k m, q.manifests.get? k = some m →
    (∃ m₀, p.manifests.get? k = some m₀ ∧ m.key = m₀.key ∧ m.ident = m₀.ident ∧ m.pinned = m₀.pinned) ∨
      (m.key = k ∧ p.nextIdent ≤ m.ident ∧ m.ident < q.nextIdent ∧ m.pinned = 0)
  later : p.nextIdent ≤ q.nextIdent

theorem Calm.of_eq {p q : Pool τ} (h : q.manifests = p.manifests) (hn : q.nextIdent = p.nextIdent) : Calm p q := by
  constructor
  · intro k m hm
    rw [h] at hm
    exact .inl ⟨m, hm, rfl, rfl, rfl⟩
  · rw [hn]

theorem Calm.refl (p : Pool τ) : Calm p p := Calm.of_eq rfl rfl

theorem Calm.trans {p q r : Pool τ} (hpq : Calm p q) (hqr : Calm q r) : Calm p r := by
  refine ⟨?_, le_trans hpq.later hqr.later⟩
  intro k m hm
  rcases hqr.kept k m hm with ⟨m₁, hm₁, hk₁, hi₁, hp₁⟩ | ⟨hk, hlow, hhigh, hp⟩
  · rcases hpq.kept k m₁ hm₁ with ⟨m₀, hm₀, hk₀, hi₀, hp₀⟩ | ⟨hk, hlow, hhigh, hp⟩
    · exact .inl ⟨m₀, hm₀, hk₁.trans hk₀, hi₁.trans hi₀, hp₁.trans hp₀⟩
    · refine .inr ⟨hk₁.trans hk, by omega, ?_, by omega⟩
      have := hqr.later
      omega
  · have := hpq.later
    exact .inr ⟨hk, by omega, hhigh, hp⟩

theorem calm_pop (p : Pool τ) (key : SnapshotKey) (spillers : PyDict SnapshotKey Spiller) :
    Calm p { p with manifests := p.manifests.pop key, spillers := spillers } := by
  refine ⟨?_, le_refl _⟩
  intro k m hm
  simp only [PyDict.get?_pop] at hm
  split_ifs at hm
  exact .inl ⟨m, hm, rfl, rfl, rfl⟩

theorem calm_store {p : Pool τ} {key : SnapshotKey} {old m : Manifest τ} (hk : p.manifests.get? key = some old)
    (hkey : m.key = old.key) (hid : m.ident = old.ident) (hpin : m.pinned = old.pinned) :
    Calm p { p with manifests := p.manifests.set key m } := by
  refine ⟨?_, le_refl _⟩
  intro k m' hm'
  simp only [PyDict.get?_set] at hm'
  split_ifs at hm' with heq
  · obtain rfl := Option.some.inj hm'
    exact .inl ⟨old, heq ▸ hk, hkey, hid, hpin⟩
  · exact .inl ⟨m', hm', rfl, rfl, rfl⟩

theorem calm_publish {p q : Pool τ} {a : CommitArgs τ}
    (hm : q.manifests = p.manifests.set a.key (a.manifest p.nextIdent)) (hn : q.nextIdent = p.nextIdent + 1) :
    Calm p q := by
  refine ⟨?_, by omega⟩
  intro k m hk
  rw [hm, PyDict.get?_set] at hk
  split_ifs at hk with heq
  · obtain rfl := Option.some.inj hk
    exact .inr ⟨heq.symm, le_refl _, by simp [CommitArgs.manifest, hn], rfl⟩
  · exact .inl ⟨m, hk, rfl, rfl, rfl⟩

theorem assertCapacity_state (p : Pool τ) : (assertCapacity.run p).2 = p := by
  simp only [assertCapacity, Raising.run_get_bind]
  split_ifs <;> rfl

theorem calm_withSpiller {p q : Pool τ} (h : Calm p q) (key : SnapshotKey) (spiller : Option Spiller) :
    Calm p (assertCapacity.run (q.withSpiller key spiller)).2 := by
  rw [assertCapacity_state]
  cases spiller with
  | none => exact h
  | some f => exact h.trans (Calm.of_eq rfl rfl)

theorem commit_calm (p : Pool τ) (a : CommitArgs τ) : Calm p ((commit a).run p).2 := by
  by_cases hneg : a.logicalBytes < 0 ∨ a.allocatedBytes < 0 ∨ ∃ b ∈ a.transferredBytes, b < 0
  · simp only [commit, if_pos hneg, Raising.run_raise_bind]
    exact Calm.refl p
  cases hr : p.reservations.get? a.key with
  | none =>
    rcases predecessor_cases p a.key a.replaces with hp | ⟨_, hp⟩ | ⟨old, m, _, _, _, hp⟩
    all_goals
      simp only [commit, if_neg hneg, Raising.run_get_bind, hp, hr, Raising.run_raise]
      exact Calm.refl p
  | some reserved =>
    rcases predecessor_cases p a.key a.replaces with hp | ⟨hold, hp⟩ | ⟨old, m, hold, hm, hne, hp⟩
    · simp only [commit, if_neg hneg, Raising.run_get_bind, hp, Raising.run_raise]
      exact Calm.refl p
    · by_cases hover : a.allocatedBytes > reserved + ((none : Option (Manifest τ)).map (·.allocatedBytes)).getD 0
      · simp only [commit, if_neg hneg, Raising.run_get_bind, hp, hr, Raising.run_modify_bind, if_pos hover,
          Raising.run_raise_bind]
        exact Calm.of_eq rfl rfl
      · rw [hold] at hp
        have hcalm := calm_withSpiller (calm_publish (p := p) (q := { p with
          reservations := p.reservations.pop a.key
          manifests := p.manifests.set a.key (a.manifest p.nextIdent)
          nextIdent := p.nextIdent + 1 }) rfl rfl) a.key a.spiller
        simp only [commit, if_neg hneg, Raising.run_get_bind, hold, hp, hr, Raising.run_modify_bind, if_neg hover,
          publish]
        cases hs : a.spiller <;> simpa [hs, withSpiller, CommitArgs.manifest] using hcalm
    · by_cases hover : a.allocatedBytes > reserved + ((some m).map (·.allocatedBytes)).getD 0
      · simp only [commit, if_neg hneg, Raising.run_get_bind, hp, hr, Raising.run_modify_bind, if_pos hover,
          Raising.run_raise_bind]
        exact Calm.of_eq rfl rfl
      · rw [hold] at hp
        have hcalm := calm_withSpiller ((calm_publish (p := p) (q := { p with
          reservations := p.reservations.pop a.key
          manifests := p.manifests.set a.key (a.manifest p.nextIdent)
          nextIdent := p.nextIdent + 1 }) rfl rfl).trans (calm_pop _ old (p.spillers.pop old))) a.key a.spiller
        simp only [commit, if_neg hneg, Raising.run_get_bind, hold, hp, hr, Raising.run_modify_bind, if_neg hover,
          publish, retire]
        cases hs : a.spiller <;> simpa [hs, withSpiller, CommitArgs.manifest] using hcalm

end Pool

def PoolOp.Pins : PoolOp τ → Bool
  | .pin _ | .unpin _ => true
  | _ => false

def Action.Pins : Action τ → Bool
  | .enterGuard _ | .leaveGuard _ => true
  | .op o => o.Pins
  | _ => false

theorem discard_calm {α : Type} {p : Pool τ} {x : PoolM τ α} (h : p.Calm (x.run p).2) :
    p.Calm ((do let _ ← x : PoolM τ Unit).run p).2 := by
  rcases hx : x.run p with ⟨r, q⟩
  rw [hx] at h
  cases r with
  | error e =>
    rw [Raising.run_bind_error hx]
    exact h
  | ok a =>
    rw [Raising.run_bind_ok hx]
    exact h

theorem op_calm (p : Pool τ) (op : PoolOp τ) (hop : op.Pins = false) : p.Calm (op.run p).2 := by
  cases op with
  | reserveBorrow sandbox upperBound =>
    rcases Pool.reserveBorrow_cases p sandbox upperBound with ⟨e, _, hr⟩ | ⟨q, rfl, hr, _⟩
    · simpa only [PoolOp.run, PoolOp.body, hr] using Pool.Calm.refl p
    · simp only [PoolOp.run, PoolOp.body, hr]
      exact Pool.Calm.of_eq rfl rfl
  | releaseBorrow sandbox =>
    apply discard_calm
    cases hb : p.borrowReservations.get? sandbox with
    | none => simpa [Pool.releaseBorrow, hb] using Pool.Calm.refl p
    | some b =>
      rw [Pool.releaseBorrow_run hb]
      exact Pool.Calm.of_eq rfl rfl
  | observeSharedLive sharedLive settleBorrow =>
    apply discard_calm
    by_cases hneg : sharedLive < 0
    · rw [Pool.observeSharedLive_negative hneg]
      exact Pool.Calm.refl p
    · rw [Pool.observeSharedLive_run (by omega)]
      exact Pool.Calm.of_eq rfl rfl
  | reserve key upperBound =>
    rcases Pool.reserve_cases p key upperBound with ⟨e, _, hr⟩ | ⟨q, rfl, hr, _⟩
    · simpa only [PoolOp.run, PoolOp.body, hr] using Pool.Calm.refl p
    · simp only [PoolOp.run, PoolOp.body, hr]
      exact Pool.Calm.of_eq rfl rfl
  | commit args => exact Pool.commit_calm p args
  | abort key => exact Pool.Calm.of_eq rfl rfl
  | pin key => cases hop
  | unpin key => cases hop
  | touch key now =>
    rcases Pool.lookup_run p key with ⟨m, hm, hr⟩ | hr
    · simp only [PoolOp.run, PoolOp.body, Pool.touch, Raising.run_bind_ok hr]
      exact Pool.calm_store hm rfl rfl rfl
    · simp only [PoolOp.run, PoolOp.body, Pool.touch, Raising.run_bind_error hr]
      exact Pool.Calm.refl p
  | retainForVm key =>
    rcases Pool.lookup_run p key with ⟨m, hm, hr⟩ | hr
    · simp only [PoolOp.run, PoolOp.body, Pool.retainForVm, Raising.run_bind_ok hr]
      exact Pool.calm_store hm rfl rfl rfl
    · simp only [PoolOp.run, PoolOp.body, Pool.retainForVm, Raising.run_bind_error hr]
      exact Pool.Calm.refl p
  | remove key consumePinned =>
    rcases Pool.lookup_run p key with ⟨m, hm, hr⟩ | hr
    · simp only [PoolOp.run, PoolOp.body, Pool.remove, Raising.run_bind_ok hr]
      by_cases hpin : m.pinned ≠ (if consumePinned then 1 else 0)
      · simpa [hpin] using Pool.Calm.refl p
      · simp only [hpin, if_false]
        exact Pool.calm_pop p key _
    · simp only [PoolOp.run, PoolOp.body, Pool.remove, Raising.run_bind_error hr]
      exact Pool.Calm.refl p

structure Pinned (p : Pool τ) (guards pins : List Victim) (held : ℕ → List Victim) : Prop where
  keyed : p.Keyed
  fresh : ∀ k m, p.manifests.get? k = some m → m.ident < p.nextIdent
  guarded : ∀ v ∈ guards, v.ident < p.nextIdent
  taken : ∀ v ∈ pins, v.ident < p.nextIdent
  selected : ∀ th, ∀ v ∈ held th, v.ident < p.nextIdent
  alone : ∀ th u v, v ∈ held th → v ∈ held u → th = u
  apart : ∀ th v, v ∈ held th → v ∉ guards
  free : ∀ k m, p.manifests.get? k = some m → (∀ th, ⟨k, m.ident⟩ ∉ held th) →
    m.pinned = guards.count ⟨k, m.ident⟩ + pins.count ⟨k, m.ident⟩
  spilling : ∀ k m th, p.manifests.get? k = some m → ⟨k, m.ident⟩ ∈ held th →
    m.pinned = guards.count ⟨k, m.ident⟩ + pins.count ⟨k, m.ident⟩ + 1

namespace Pinned

variable {p q : Pool τ} {guards pins : List Victim} {held : ℕ → List Victim}

theorem nonneg (h : Pinned p guards pins held) {k : SnapshotKey} {m : Manifest τ} (hm : p.manifests.get? k = some m) :
    0 ≤ m.pinned := by
  by_cases hh : ∃ th, (⟨k, m.ident⟩ : Victim) ∈ held th
  · obtain ⟨th, hth⟩ := hh
    rw [h.spilling k m th hm hth]
    omega
  · rw [h.free k m hm (fun th hth => hh ⟨th, hth⟩)]
    omega

theorem calm (h : Pinned p guards pins held) (hc : p.Calm q) : Pinned q guards pins held := by
  have hlater := hc.later
  refine ⟨?_, ?_, ?_, ?_, ?_, h.alone, h.apart, ?_, ?_⟩
  · intro k m hm
    rcases hc.kept k m hm with ⟨m₀, hm₀, hkey, _⟩ | ⟨hkey, _⟩
    · rw [hkey]
      exact h.keyed k m₀ hm₀
    · exact hkey
  · intro k m hm
    rcases hc.kept k m hm with ⟨m₀, hm₀, _, hid, _⟩ | ⟨_, _, hhigh, _⟩
    · have := h.fresh k m₀ hm₀
      omega
    · exact hhigh
  · exact fun v hv => lt_of_lt_of_le (h.guarded v hv) hlater
  · exact fun v hv => lt_of_lt_of_le (h.taken v hv) hlater
  · exact fun th v hv => lt_of_lt_of_le (h.selected th v hv) hlater
  · intro k m hm hfree
    rcases hc.kept k m hm with ⟨m₀, hm₀, _, hid, hpin⟩ | ⟨_, hlow, _, hpin⟩
    · rw [hpin, hid]
      exact h.free k m₀ hm₀ (by rwa [hid] at hfree)
    · have hg : (⟨k, m.ident⟩ : Victim) ∉ guards := fun hin => absurd (h.guarded _ hin) (by simpa using hlow)
      have ht : (⟨k, m.ident⟩ : Victim) ∉ pins := fun hin => absurd (h.taken _ hin) (by simpa using hlow)
      rw [hpin, List.count_eq_zero_of_not_mem hg, List.count_eq_zero_of_not_mem ht]
      rfl
  · intro k m th hm hth
    rcases hc.kept k m hm with ⟨m₀, hm₀, _, hid, hpin⟩ | ⟨_, hlow, _⟩
    · rw [hpin, hid]
      exact h.spilling k m₀ th hm₀ (by rwa [hid] at hth)
    · exact absurd (h.selected th _ hth) (by simpa using hlow)

theorem store (h : Pinned p guards pins held) {key : SnapshotKey} {m : Manifest τ} (hm : p.manifests.get? key = some m)
    (d : ℤ) {guards' pins' : List Victim}
    (hcount : ∀ v : Victim, (guards'.count v + pins'.count v : ℤ) =
      guards.count v + pins.count v + if v = ⟨key, m.ident⟩ then d else 0)
    (hguards : ∀ v ∈ guards', v ∈ guards ∨ (v = ⟨key, m.ident⟩ ∧ ∀ th, v ∉ held th))
    (hpins : ∀ v ∈ pins', v ∈ pins ∨ v = ⟨key, m.ident⟩) :
    Pinned { p with manifests := p.manifests.set key { m with pinned := m.pinned + d } } guards' pins' held := by
  have hget : ∀ k m', (p.manifests.set key { m with pinned := m.pinned + d }).get? k = some m' →
      ∃ m₀, p.manifests.get? k = some m₀ ∧ m'.key = m₀.key ∧ m'.ident = m₀.ident ∧
        m'.pinned = m₀.pinned + if (⟨k, m'.ident⟩ : Victim) = ⟨key, m.ident⟩ then d else 0 := by
    intro k m' hm'
    rw [PyDict.get?_set] at hm'
    split_ifs at hm' with hk
    · obtain rfl := Option.some.inj hm'
      exact ⟨m, hk ▸ hm, rfl, rfl, by simp [hk]⟩
    · exact ⟨m', hm', rfl, rfl, by simp [hk]⟩
  have hident := h.fresh key m hm
  refine ⟨?_, ?_, ?_, ?_, h.selected, h.alone, ?_, ?_, ?_⟩
  · intro k m' hm'
    obtain ⟨m₀, hm₀, hkey, _, _⟩ := hget k m' hm'
    rw [hkey]
    exact h.keyed k m₀ hm₀
  · intro k m' hm'
    obtain ⟨m₀, hm₀, _, hid, _⟩ := hget k m' hm'
    have := h.fresh k m₀ hm₀
    simp only
    omega
  · intro v hv
    cases hguards v hv with
    | inl hold => exact h.guarded v hold
    | inr hnew => rw [hnew.1]; exact hident
  · intro v hv
    cases hpins v hv with
    | inl hold => exact h.taken v hold
    | inr hnew => rw [hnew]; exact hident
  · intro th v hth hin
    cases hguards v hin with
    | inl hold => exact h.apart th v hth hold
    | inr hnew => exact hnew.2 th hth
  · intro k m' hm' hfree
    obtain ⟨m₀, hm₀, _, hid, hpin⟩ := hget k m' hm'
    have hold := h.free k m₀ hm₀ (by rwa [hid] at hfree)
    rw [hpin, hcount, hid, hold]
  · intro k m' th hm' hth
    obtain ⟨m₀, hm₀, _, hid, hpin⟩ := hget k m' hm'
    have hold := h.spilling k m₀ th hm₀ (by rwa [hid] at hth)
    rw [hpin, hcount, hid, hold]
    ring

theorem drop (h : Pinned p guards pins held) {v : Victim} (hv : ¬ p.Present v) :
    Pinned p (guards.erase v) pins held := by
  have hne : ∀ k m, p.manifests.get? k = some m → (⟨k, m.ident⟩ : Victim) ≠ v := by
    rintro k m hm rfl
    exact hv ⟨m, hm, rfl⟩
  refine ⟨h.keyed, h.fresh, fun w hw => h.guarded w (List.mem_of_mem_erase hw), h.taken, h.selected, h.alone, ?_, ?_,
    ?_⟩
  · exact fun th w hth hin => h.apart th w hth (List.mem_of_mem_erase hin)
  · intro k m hm hfree
    rw [List.count_erase_of_ne (hne k m hm), h.free k m hm hfree]
  · intro k m th hm hth
    rw [List.count_erase_of_ne (hne k m hm), h.spilling k m th hm hth]

theorem pinAll (h : Pinned p guards pins held) {th : ℕ} (hth : held th = []) {victims : List (Manifest τ)}
    (hv : ∀ m ∈ victims, (∃ k, p.manifests.get? k = some m) ∧ m.pinned = 0) :
    Pinned (p.pinAll victims) guards pins (Function.update held th (victims.map fun m => ⟨m.key, m.ident⟩)) := by
  have hget : ∀ k m', (p.pinAll victims).manifests.get? k = some m' → ∃ m, p.manifests.get? k = some m ∧
      m'.key = m.key ∧
      m'.ident = m.ident ∧ m'.pinned = m.pinned +
        if (⟨k, m.ident⟩ : Victim) ∈ victims.map (fun v => Victim.mk v.key v.ident) then 1 else 0 := by
    intro k m' hm'
    rw [Pool.pinAll, PyDict.get?_mapValues, Option.map_eq_some_iff] at hm'
    obtain ⟨m, hm, rfl⟩ := hm'
    refine ⟨m, hm, ?_, ?_, ?_⟩
    · split_ifs <;> rfl
    · split_ifs <;> rfl
    · split_ifs <;> simp
  -- a victim is in the pool, so its pins were all counted and there were none
  have hzero : ∀ v ∈ victims.map (fun m => Victim.mk m.key m.ident),
      (∃ m, p.manifests.get? v.key = some m ∧ m.ident = v.ident ∧ m.pinned = 0) := by
    intro v hmem
    obtain ⟨m, hm, rfl⟩ := List.mem_map.1 hmem
    obtain ⟨⟨k, hk⟩, hpin⟩ := hv m hm
    have hkey := h.keyed k m hk
    exact ⟨m, by rw [hkey]; exact hk, rfl, hpin⟩
  have hunheld : ∀ v ∈ victims.map (fun m => Victim.mk m.key m.ident), (∀ u, v ∉ held u) ∧ v ∉ guards ∧ v ∉ pins := by
    intro v hmem
    obtain ⟨m, hm, hid, hpin⟩ := hzero v hmem
    have hvm : v = ⟨v.key, m.ident⟩ := by rw [hid]
    have hfree : ∀ u, v ∉ held u := by
      intro u hu
      rw [hvm] at hu
      have := h.spilling v.key m u hm hu
      omega
    have hcount := h.free v.key m hm (fun u => hvm ▸ hfree u)
    rw [← hvm, hpin] at hcount
    exact ⟨hfree, List.count_eq_zero.1 (by omega), List.count_eq_zero.1 (by omega)⟩
  have hin : ∀ u v, v ∈ Function.update held th (victims.map fun m => Victim.mk m.key m.ident) u →
      (u = th ∧ v ∈ victims.map fun m => Victim.mk m.key m.ident) ∨ (u ≠ th ∧ v ∈ held u) := by
    intro u v hmem
    rw [Function.update_apply] at hmem
    split_ifs at hmem with hu
    · exact .inl ⟨hu, hmem⟩
    · exact .inr ⟨hu, hmem⟩
  refine ⟨?_, ?_, h.guarded, h.taken, ?_, ?_, ?_, ?_, ?_⟩
  · intro k m' hm'
    obtain ⟨m, hm, hkey, _⟩ := hget k m' hm'
    rw [hkey]
    exact h.keyed k m hm
  · intro k m' hm'
    obtain ⟨m, hm, _, hid, _⟩ := hget k m' hm'
    rw [hid]
    exact h.fresh k m hm
  · intro u v hmem
    rcases hin u v hmem with ⟨_, hnew⟩ | ⟨_, hold⟩
    · obtain ⟨m, hm, hid, _⟩ := hzero v hnew
      rw [← hid]
      exact h.fresh _ m hm
    · exact h.selected u v hold
  · intro t u v hmt hmu
    rcases hin t v hmt with ⟨ht, hnew⟩ | ⟨_, hold⟩
    · rcases hin u v hmu with ⟨hu, _⟩ | ⟨_, hold⟩
      · rw [ht, hu]
      · exact absurd hold ((hunheld v hnew).1 u)
    · rcases hin u v hmu with ⟨_, hnew⟩ | ⟨_, hold'⟩
      · exact absurd hold ((hunheld v hnew).1 t)
      · exact h.alone t u v hold hold'
  · intro u v hmem
    rcases hin u v hmem with ⟨_, hnew⟩ | ⟨_, hold⟩
    · exact (hunheld v hnew).2.1
    · exact h.apart u v hold
  · intro k m' hm' hfree
    obtain ⟨m, hm, _, hid, hpin⟩ := hget k m' hm'
    rw [hid] at hfree ⊢
    have hnew : (⟨k, m.ident⟩ : Victim) ∉ victims.map fun m => Victim.mk m.key m.ident := by
      have := hfree th
      rwa [Function.update_self] at this
    rw [hpin, if_neg hnew, add_zero]
    apply h.free k m hm
    intro u hu
    by_cases hut : u = th
    · rw [hut, hth] at hu
      cases hu
    · have := hfree u
      rw [Function.update_of_ne hut] at this
      exact this hu
  · intro k m' u hm' hu
    obtain ⟨m, hm, _, hid, hpin⟩ := hget k m' hm'
    rw [hid] at hu ⊢
    rcases hin u _ hu with ⟨_, hnew⟩ | ⟨_, hold⟩
    · rw [hpin, if_pos hnew, h.free k m hm (hunheld _ hnew).1]
    · have hnot : (⟨k, m.ident⟩ : Victim) ∉ victims.map fun m => Victim.mk m.key m.ident :=
        fun hnew => (hunheld _ hnew).1 u hold
      rw [hpin, if_neg hnot, add_zero, h.spilling k m u hm hold]

theorem unpinAll (h : Pinned p guards pins held) (th : ℕ) :
    Pinned (p.unpinAll (held th)) guards pins (Function.update held th []) := by
  have hget : ∀ k m', (p.unpinAll (held th)).manifests.get? k = some m' → ∃ m, p.manifests.get? k = some m ∧
      m'.key = m.key ∧ m'.ident = m.ident ∧
      m'.pinned = m.pinned - if (⟨k, m.ident⟩ : Victim) ∈ held th then 1 else 0 := by
    intro k m' hm'
    rw [Pool.unpinAll, PyDict.get?_mapValues, Option.map_eq_some_iff] at hm'
    obtain ⟨m, hm, rfl⟩ := hm'
    by_cases hin : (⟨k, m.ident⟩ : Victim) ∈ held th
    · have hpos : m.pinned > 0 := by
        rw [h.spilling k m th hm hin]
        omega
      exact ⟨m, hm, by simp [hin, hpos], by simp [hin, hpos], by simp [hin, hpos]⟩
    · exact ⟨m, hm, by simp [hin], by simp [hin], by simp [hin]⟩
  have hin : ∀ u v, v ∈ Function.update held th [] u → u ≠ th ∧ v ∈ held u := by
    intro u v hmem
    rw [Function.update_apply] at hmem
    split_ifs at hmem with hu
    · cases hmem
    · exact ⟨hu, hmem⟩
  refine ⟨?_, ?_, h.guarded, h.taken, fun u v hmem => h.selected u v (hin u v hmem).2, ?_, ?_, ?_, ?_⟩
  · intro k m' hm'
    obtain ⟨m, hm, hkey, _⟩ := hget k m' hm'
    rw [hkey]
    exact h.keyed k m hm
  · intro k m' hm'
    obtain ⟨m, hm, _, hid, _⟩ := hget k m' hm'
    rw [hid]
    exact h.fresh k m hm
  · exact fun t u v hmt hmu => h.alone t u v (hin t v hmt).2 (hin u v hmu).2
  · exact fun u v hmem => h.apart u v (hin u v hmem).2
  · intro k m' hm' hfree
    obtain ⟨m, hm, _, hid, hpin⟩ := hget k m' hm'
    rw [hid] at hfree ⊢
    by_cases hth : (⟨k, m.ident⟩ : Victim) ∈ held th
    · rw [hpin, if_pos hth, h.spilling k m th hm hth]
      ring
    · rw [hpin, if_neg hth, sub_zero]
      apply h.free k m hm
      intro u hu
      by_cases hut : u = th
      · exact hth (hut ▸ hu)
      · have := hfree u
        rw [Function.update_of_ne hut] at this
        exact this hu
  · intro k m' u hm' hu
    obtain ⟨m, hm, _, hid, hpin⟩ := hget k m' hm'
    rw [hid] at hu ⊢
    obtain ⟨hut, hold⟩ := hin u _ hu
    have hnot : (⟨k, m.ident⟩ : Victim) ∉ held th := fun hth => hut (h.alone u th _ hold hth)
    rw [hpin, if_neg hnot, sub_zero, h.spilling k m u hm hold]

end Pinned

def Thread.held : Thread τ → List Victim
  | .spilling _ victims _ | .relocating _ victims _ _ | .relocated _ victims _ _ | .unpinning _ victims _ => victims
  | .idle | .selecting _ | .reserving .. | .waiting .. => []

def Thread.moving : Thread τ → Option Victim
  | .relocating _ _ item _ | .relocated _ _ item _ => some item
  | .idle | .selecting _ | .spilling .. | .unpinning .. | .reserving .. | .waiting .. => none

def Thread.todo : Thread τ → List Victim
  | .spilling _ _ todo => todo
  | .relocating _ _ item todo | .relocated _ _ item todo => item :: todo
  | .idle | .selecting _ | .unpinning .. | .reserving .. | .waiting .. => []

namespace Runtime

def held (s : Runtime τ) (th : ℕ) : List Victim := (s.threads th).held

structure Ordered (s : Runtime τ) (guards pins : List Victim) : Prop where
  pinned : Pinned s.pool guards pins s.held
  todo : ∀ th, ∀ v ∈ (s.threads th).todo, v ∈ s.held th

structure Releases (s : Runtime τ) (th : ℕ) (t : Runtime τ) : Prop where
  pool : t.pool = s.pool
  others : ∀ u, u ≠ th → t.threads u = s.threads u
  held : (t.threads th).held = []
  todo : (t.threads th).todo = []

theorem releases_setThread (s : Runtime τ) (th : ℕ) {x : Thread τ} (hx : x.held = []) (hd : x.todo = []) :
    Releases s th (s.setThread th x) := by
  refine ⟨rfl, fun u hu => Function.update_of_ne hu _ _, ?_, ?_⟩
  · simpa [setThread] using hx
  · simpa [setThread] using hd

theorem handle_releases (s : Runtime τ) (th : ℕ) (key : SnapshotKey) (upperBound : ℤ) (value : τ) (e : PoolError) :
    Releases s th (s.handle th key upperBound value e).1 := by
  unfold handle
  split_ifs
  · have h := releases_setThread s th (x := .waiting key upperBound value e) rfl rfl
    exact ⟨h.pool, h.others, h.held, h.todo⟩
  · have h := releases_setThread s th (x := .idle) rfl rfl
    exact ⟨h.pool, h.others, h.held, h.todo⟩

theorem settle_releases (s : Runtime τ) (th : ℕ) (caller : Caller τ) (r : Except PoolError Unit) :
    Releases s th (s.settle th caller r).1 := by
  cases caller with
  | spillForAdmission args => exact releases_setThread s th rfl rfl
  | spillObservedExcess =>
    have h := releases_setThread s th (x := .idle) rfl rfl
    exact ⟨h.pool, h.others, h.held, h.todo⟩
  | reserveForAdmission key upperBound value =>
    cases r with
    | ok _ => exact releases_setThread s th rfl rfl
    | error e => exact handle_releases s th key upperBound value e

theorem enter_releases (s : Runtime τ) (th : ℕ) (caller : Caller τ) : Releases s th (s.enter th caller).1 := by
  unfold enter
  split
  · exact releases_setThread s th rfl rfl
  · exact releases_setThread s th rfl rfl
  · exact settle_releases s th caller _

theorem start_releases {s t : Runtime τ} {th : ℕ} {caller : Caller τ} {o : Outcome}
    (h : s.start th caller = some (t, o)) :
    Releases s th t := by
  unfold start at h
  split at h
  · rename_i args
    have hr := enter_releases s th (.spillForAdmission args)
    rwa [Option.some.inj h] at hr
  · split_ifs at h
    have hr := enter_releases { s with admissionLock := some th } th caller
    rw [Option.some.inj h] at hr
    exact ⟨hr.pool, hr.others, hr.held, hr.todo⟩

theorem Releases.held_eq {s t : Runtime τ} {th : ℕ} (h : Releases s th t) : t.held = Function.update s.held th [] := by
  funext u
  by_cases hu : u = th
  · rw [hu, Function.update_self]
    exact h.held
  · rw [Function.update_of_ne hu]
    change (t.threads u).held = (s.threads u).held
    rw [h.others u hu]

theorem Ordered.releases {s t : Runtime τ} {guards pins : List Victim} (h : s.Ordered guards pins) {th : ℕ}
    (hr : Releases s th t) (hth : s.held th = []) : t.Ordered guards pins := by
  have hheld : t.held = s.held := by
    rw [hr.held_eq, ← hth, Function.update_eq_self]
  constructor
  · rw [hr.pool, hheld]
    exact h.pinned
  · intro u v hv
    rw [hheld]
    by_cases hu : u = th
    · rw [hu, hr.todo] at hv
      cases hv
    · rw [hr.others u hu] at hv
      exact h.todo u v hv

theorem held_setThread (s : Runtime τ) (th : ℕ) (x : Thread τ) :
    (s.setThread th x).held = Function.update s.held th x.held := by
  funext u
  simp only [held, setThread, Function.update_apply]
  split_ifs <;> rfl

theorem Ordered.proceeds {s : Runtime τ} {guards pins : List Victim} (h : s.Ordered guards pins) {th : ℕ} {x : Thread τ}
    (hx : x.held = s.held th) (hd : ∀ v ∈ x.todo, v ∈ s.held th) : (s.setThread th x).Ordered guards pins := by
  have hheld : (s.setThread th x).held = s.held := by
    rw [held_setThread, hx, Function.update_eq_self]
  constructor
  · rw [hheld]
    exact h.pinned
  · intro u v hv
    rw [hheld]
    simp only [setThread, Function.update_apply] at hv
    split_ifs at hv with hu
    · rw [hu]
      exact hd v hv
    · exact h.todo u v hv

theorem Ordered.pool {s : Runtime τ} {guards pins : List Victim} (h : s.Ordered guards pins) {q : Pool τ}
    (hc : s.pool.Calm q) :
    ({ s with pool := q } : Runtime τ).Ordered guards pins :=
  ⟨h.pinned.calm hc, h.todo⟩

theorem retireVictim_calm (p : Pool τ) (item : Victim) : p.Calm ((Pool.retireVictim item).run p).2 := by
  cases hk : p.manifests.get? item.key with
  | none =>
    simp only [Pool.retireVictim, Raising.run_get_bind, hk, Raising.run_raise]
    exact Pool.Calm.refl p
  | some m =>
    by_cases hid : m.ident ≠ item.ident ∨ m.pinned ≠ 1
    · simp only [Pool.retireVictim, Raising.run_get_bind, hk, if_pos hid, Raising.run_raise_bind]
      exact Pool.Calm.refl p
    · simp only [Pool.retireVictim, Raising.run_get_bind, hk, if_neg hid, Pool.retire, Raising.run_modify_bind,
        Pool.assertCapacity_state]
      exact Pool.calm_pop p item.key _

theorem reserve_calm (p : Pool τ) (key : SnapshotKey) (upperBound : ℤ) :
    p.Calm ((Pool.reserve key upperBound).run p).2 :=
  op_calm p (.reserve key upperBound) rfl

theorem Ordered.advance {s : Runtime τ} {guards pins : List Victim} (h : s.Ordered guards pins) {th : ℕ}
    {caller : Caller τ} {victims todo : List Victim} (hth : s.threads th = .spilling caller victims todo) :
    (s.advance th caller victims todo).Ordered guards pins := by
  have hheld : s.held th = victims := by
    unfold held
    rw [hth]
    rfl
  have htodo := h.todo th
  rw [hth] at htodo
  cases todo with
  | nil => exact h.proceeds hheld.symm (by simp [Thread.todo])
  | cons item todo =>
    unfold Runtime.advance
    simp only
    split
    · exact h.proceeds hheld.symm (by simp [Thread.todo])
    · exact h.proceeds hheld.symm htodo

theorem Ordered.retire {s : Runtime τ} {guards pins : List Victim} (h : s.Ordered guards pins) {th : ℕ}
    {caller : Caller τ} {victims todo : List Victim} {item : Victim}
    (hth : s.threads th = .relocated caller victims item todo) :
    (s.retire th caller victims item todo).1.Ordered guards pins := by
  have hheld : s.held th = victims := by
    unfold held
    rw [hth]
    rfl
  have htodo := h.todo th
  rw [hth] at htodo
  have hcalm := retireVictim_calm s.pool item
  unfold Runtime.retire
  rcases hr : (Pool.retireVictim item).run s.pool with ⟨r, q⟩
  rw [hr] at hcalm
  cases r with
  | error e =>
    exact (h.proceeds (x := .unpinning caller victims (.error e)) hheld.symm (by simp [Thread.todo])).pool hcalm
  | ok _ =>
    exact (h.proceeds (x := .spilling caller victims todo) hheld.symm
      (fun v hv => htodo v (List.mem_cons_of_mem item hv))).pool hcalm

theorem Ordered.unpin {s : Runtime τ} {guards pins : List Victim} (h : s.Ordered guards pins) {th : ℕ}
    {caller : Caller τ} {victims : List Victim} {result : Except PoolError Unit}
    (hth : s.threads th = .unpinning caller victims result) :
    ({ s with pool := s.pool.unpinAll victims }.settle th caller result).1.Ordered guards pins := by
  have hheld : s.held th = victims := by
    unfold held
    rw [hth]
    rfl
  have hr := settle_releases { s with pool := s.pool.unpinAll victims } th caller result
  constructor
  · rw [hr.pool, hr.held_eq, ← hheld]
    exact h.pinned.unpinAll th
  · intro u v hv
    rw [hr.held_eq, Function.update_apply]
    by_cases hu : u = th
    · rw [hu, hr.todo] at hv
      cases hv
    · rw [if_neg hu]
      rw [hr.others u hu] at hv
      exact h.todo u v hv

variable [LinearOrder τ] [Add τ] [Zero τ] {density : τ → ℤ → τ}

theorem Ordered.select {s : Runtime τ} {guards pins : List Victim} (h : s.Ordered guards pins) {th : ℕ}
    (hth : s.held th = []) (caller : Caller τ) : (s.select density th caller).1.Ordered guards pins := by
  unfold Runtime.select
  cases hv : s.pool.lruVictims density caller.args with
  | error e => exact h.releases (settle_releases s th caller _) hth
  | ok victims =>
    have hsel := (Pool.lruVictims_selects hv).taken
    have hfree : ∀ m ∈ victims, (∃ k, s.pool.manifests.get? k = some m) ∧ m.pinned = 0 := by
      intro m hm
      obtain ⟨hk, _, hpin, _⟩ := Pool.mem_candidates.1 (hsel.subset hm)
      exact ⟨hk, hpin⟩
    constructor
    · change Pinned (s.pool.pinAll victims) guards pins (Runtime.setThread s th (.spilling caller _ _)).held
      rw [held_setThread]
      exact h.pinned.pinAll hth hfree
    · intro u v hmem
      simp only [setThread, Function.update_apply] at hmem
      change v ∈ (Runtime.setThread s th _).held u
      rw [held_setThread, Function.update_apply]
      split_ifs at hmem ⊢ with hu
      · exact hmem
      · exact h.todo u v hmem

theorem Ordered.step {s t : Runtime τ} {guards pins : List Victim} (h : s.Ordered guards pins) {a : Action τ}
    {o : Outcome} (hn : next density s a = some (t, o)) (ha : a.Pins = false) : t.Ordered guards pins := by
  cases a with
  | op op =>
    obtain ⟨rfl, rfl⟩ := Prod.mk.inj (Option.some.inj hn)
    exact h.pool (op_calm s.pool op ha)
  | enterGuard key => cases ha
  | leaveGuard item => cases ha
  | start th caller =>
    simp only [next] at hn
    split at hn
    · rename_i hth
      exact h.releases (start_releases hn) (by unfold held; rw [hth]; rfl)
    · cases hn
  | select th =>
    simp only [next] at hn
    split at hn
    · rename_i caller hth
      have hsel : (s.select density th caller).1.Ordered _ _ := h.select (by unfold held; rw [hth]; rfl) caller
      rwa [Option.some.inj hn] at hsel
    · cases hn
  | advance th =>
    simp only [next] at hn
    split at hn
    · rename_i caller victims todo hth
      obtain ⟨rfl, rfl⟩ := Prod.mk.inj (Option.some.inj hn)
      exact h.advance hth
    · cases hn
  | relocate th ok =>
    simp only [next] at hn
    split at hn
    · rename_i caller victims item todo hth
      obtain ⟨rfl, rfl⟩ := Prod.mk.inj (Option.some.inj hn)
      have hheld : s.held th = victims := by
        unfold held
        rw [hth]
        rfl
      have htodo := h.todo th
      rw [hth] at htodo
      cases ok with
      | true => exact h.proceeds hheld.symm htodo
      | false => exact h.proceeds hheld.symm (by simp [Thread.todo])
    · cases hn
  | retire th =>
    simp only [next] at hn
    split at hn
    · rename_i caller victims item todo hth
      have hret := h.retire hth
      rwa [Option.some.inj hn] at hret
    · cases hn
  | unpin th =>
    simp only [next] at hn
    split at hn
    · rename_i caller victims result hth
      have hun := h.unpin hth
      rwa [Option.some.inj hn] at hun
    · cases hn
  | reserve th =>
    simp only [next] at hn
    split at hn
    · rename_i key upperBound value hth
      obtain ⟨rfl, rfl⟩ := Prod.mk.inj (Option.some.inj hn)
      have hcalm := reserve_calm s.pool key upperBound
      have hnil : s.held th = [] := by
        unfold held
        rw [hth]
        rfl
      rcases hr : (Pool.reserve key upperBound).run s.pool with ⟨r, q⟩
      rw [hr] at hcalm
      cases r with
      | ok _ =>
        have hrel := releases_setThread s th (x := .idle) rfl rfl
        exact (h.releases (t := s.leave th) ⟨hrel.pool, hrel.others, hrel.held, hrel.todo⟩ hnil).pool hcalm
      | error e => exact (h.pool hcalm).releases (handle_releases _ th key upperBound value e) hnil
    · cases hn
  | retry th =>
    simp only [next] at hn
    split at hn
    · rename_i hth
      exact h.releases (start_releases hn) (by unfold held; rw [hth]; rfl)
    · cases hn
  | giveUp th =>
    simp only [next] at hn
    split at hn
    · rename_i hth
      obtain ⟨rfl, rfl⟩ := Prod.mk.inj (Option.some.inj hn)
      exact h.releases (releases_setThread s th rfl rfl) (by unfold held; rw [hth]; rfl)
    · cases hn

omit [LinearOrder τ] [Add τ] [Zero τ] in
theorem Releases.held_of_nil {s t : Runtime τ} {th : ℕ} (hr : Releases s th t) (hth : s.held th = []) :
    t.held = s.held := by
  rw [hr.held_eq, ← hth, Function.update_eq_self]

omit [LinearOrder τ] [Add τ] [Zero τ] in
theorem held_of_thread {s : Runtime τ} {th : ℕ} {x : Thread τ} (hth : s.threads th = x) : s.held th = x.held := by
  rw [held, hth]

omit [LinearOrder τ] [Add τ] [Zero τ] in
theorem held_kept {s : Runtime τ} {th : ℕ} {x y : Thread τ} (hth : s.threads th = x) (hy : y.held = x.held) (u : ℕ) :
    (s.setThread th y).held u = s.held u := by
  rw [held_setThread, hy, ← held_of_thread hth, Function.update_eq_self]

theorem held_changes {s t : Runtime τ} {a : Action τ} {o : Outcome} (hn : next density s a = some (t, o)) (th : ℕ) :
    t.held th = s.held th ∨ (a = .select th ∧ s.held th = []) ∨ (a = .unpin th ∧ t.held th = []) := by
  cases a with
  | op op =>
    obtain ⟨rfl, rfl⟩ := Prod.mk.inj (Option.some.inj hn)
    exact .inl rfl
  | enterGuard key =>
    simp only [next] at hn
    split at hn
    · obtain ⟨rfl, rfl⟩ := Prod.mk.inj (Option.some.inj hn)
      exact .inl rfl
    · split_ifs at hn
      obtain ⟨rfl, rfl⟩ := Prod.mk.inj (Option.some.inj hn)
      exact .inl rfl
  | leaveGuard item =>
    simp only [next] at hn
    split at hn
    · obtain ⟨rfl, rfl⟩ := Prod.mk.inj (Option.some.inj hn)
      exact .inl rfl
    · split_ifs at hn <;> obtain ⟨rfl, rfl⟩ := Prod.mk.inj (Option.some.inj hn) <;> exact .inl rfl
  | start u caller =>
    simp only [next] at hn
    split at hn
    · rename_i hu
      exact .inl (congrFun ((start_releases hn).held_of_nil (held_of_thread hu)) th)
    · cases hn
  | select u =>
    simp only [next] at hn
    split at hn
    · rename_i caller hu
      by_cases hth : th = u
      · exact .inr (.inl ⟨by rw [hth], by rw [hth, held_of_thread hu]; rfl⟩)
      · left
        have hs : (select density s u caller).1.held th = s.held th := by
          unfold Runtime.select
          split
          · rw [(settle_releases s u caller _).held_eq, Function.update_of_ne hth]
          · exact congrFun (held_setThread s u _) th |>.trans (Function.update_of_ne hth _ _)
        rwa [Option.some.inj hn] at hs
    · cases hn
  | advance u =>
    simp only [next] at hn
    split at hn
    · rename_i caller victims todo hu
      obtain ⟨rfl, rfl⟩ := Prod.mk.inj (Option.some.inj hn)
      left
      unfold Runtime.advance
      split
      · exact held_kept hu (by rfl) th
      · split <;> exact held_kept hu (by rfl) th
    · cases hn
  | relocate u ok =>
    simp only [next] at hn
    split at hn
    · rename_i caller victims item todo hu
      obtain ⟨rfl, rfl⟩ := Prod.mk.inj (Option.some.inj hn)
      left
      split_ifs <;> exact held_kept hu (by rfl) th
    · cases hn
  | retire u =>
    simp only [next] at hn
    split at hn
    · rename_i caller victims item todo hu
      left
      have hs : (s.retire u caller victims item todo).1.held th = s.held th := by
        unfold Runtime.retire
        split <;> exact held_kept hu (by rfl) th
      rwa [Option.some.inj hn] at hs
    · cases hn
  | unpin u =>
    simp only [next] at hn
    split at hn
    · rename_i caller victims result hu
      have hr := settle_releases { s with pool := s.pool.unpinAll victims } u caller result
      rw [Option.some.inj hn] at hr
      by_cases hth : th = u
      · exact .inr (.inr ⟨by rw [hth], by rw [hth]; exact hr.held⟩)
      · left
        rw [hr.held_eq, Function.update_of_ne hth]
        rfl
    · cases hn
  | reserve u =>
    simp only [next] at hn
    split at hn
    · rename_i key upperBound value hu
      left
      have hs : (s.reserve u key upperBound value).1.held th = s.held th := by
        unfold Runtime.reserve
        split
        · exact held_kept (y := .idle) hu (by rfl) th
        · rename_i p _
          exact congrFun ((handle_releases { s with pool := p } u key upperBound value _).held_of_nil
            (held_of_thread hu)) th
      rwa [Option.some.inj hn] at hs
    · cases hn
  | retry u =>
    simp only [next] at hn
    split at hn
    · rename_i hu
      exact .inl (congrFun ((start_releases hn).held_of_nil (held_of_thread hu)) th)
    · cases hn
  | giveUp u =>
    simp only [next] at hn
    split at hn
    · rename_i hu
      obtain ⟨rfl, rfl⟩ := Prod.mk.inj (Option.some.inj hn)
      exact .inl (held_kept (y := .idle) hu (by rfl) th)
    · cases hn

end Runtime

structure Custody (τ : Type) where
  runtime : Runtime τ
  guards : List Victim := []
  pins : List Victim := []

namespace Custody

def current (p : Pool τ) (key : SnapshotKey) : List Victim :=
  match p.manifests.get? key with
  | some m => [⟨key, m.ident⟩]
  | none => []

variable [LinearOrder τ] [Add τ] [Zero τ]

/-- Only an open guard is left, and only who took a pin drops it. -/
def next (density : τ → ℤ → τ) (s : Custody τ) (a : Action τ) : Option (Custody τ × Outcome) :=
  match a with
  | .enterGuard key =>
    (s.runtime.next density a).map fun r =>
      ({ s with runtime := r.1, guards := current s.runtime.pool key ++ s.guards }, r.2)
  | .leaveGuard item =>
    if item ∈ s.guards then
      (s.runtime.next density a).map fun r => ({ s with runtime := r.1, guards := s.guards.erase item }, r.2)
    else none
  | .op (.pin key) =>
    (s.runtime.next density a).map fun r => ({ s with runtime := r.1, pins := current s.runtime.pool key ++ s.pins },
      r.2)
  | .op (.unpin key) =>
    if current s.runtime.pool key ⊆ s.pins then
      (s.runtime.next density a).map fun r =>
        ({ s with runtime := r.1, pins := s.pins.diff (current s.runtime.pool key) }, r.2)
    else none
  | _ => (s.runtime.next density a).map fun r => ({ s with runtime := r.1 }, r.2)

def Start (s : Custody τ) : Prop := Runtime.Start s.runtime ∧ s.guards = [] ∧ s.pins = []

def system (density : τ → ℤ → τ) : System (Custody τ) (Action τ × Outcome) := .ofNext Start (next density)

def Sound (s : Custody τ) : Prop := s.runtime.Ordered s.guards s.pins

variable {density : τ → ℤ → τ} {s t : Custody τ}

omit [LinearOrder τ] [Add τ] [Zero τ] in
theorem Sound.start (h : Start s) : s.Sound := by
  obtain ⟨⟨capacity, borrowCapacity, headroom, sharedLive, warm, snapshotAware, p, hp, hr⟩, hg, hpins⟩ := h
  have hempty : p.manifests = ∅ := by
    unfold Pool.new at hp
    split_ifs at hp
    obtain rfl := Except.ok.inj hp
    rfl
  have hnone : ∀ k, s.runtime.pool.manifests.get? k = none := by
    intro k
    rw [hr]
    simp [hempty]
  have hheld : ∀ th, s.runtime.held th = [] := by
    intro th
    rw [hr]
    rfl
  constructor
  · rw [hg, hpins]
    refine ⟨?_, ?_, by simp, by simp, ?_, ?_, ?_, ?_, ?_⟩
    · intro k m hm
      rw [hnone] at hm
      cases hm
    · intro k m hm
      rw [hnone] at hm
      cases hm
    · intro th v hv
      rw [hheld] at hv
      cases hv
    · intro th u v hv
      rw [hheld] at hv
      cases hv
    · intro th v hv
      rw [hheld] at hv
      cases hv
    · intro k m hm
      rw [hnone] at hm
      cases hm
    · intro k m th hm
      rw [hnone] at hm
      cases hm
  · intro th v hv
    rw [hr] at hv
    cases hv

omit [LinearOrder τ] [Add τ] [Zero τ] in
theorem current_of_get {p : Pool τ} {key : SnapshotKey} {m : Manifest τ} (hm : p.manifests.get? key = some m) :
    current p key = [⟨key, m.ident⟩] := by
  rw [current, hm]

omit [LinearOrder τ] [Add τ] [Zero τ] in
theorem current_of_none {p : Pool τ} {key : SnapshotKey} (hm : p.manifests.get? key = none) : current p key = [] := by
  rw [current, hm]

omit [LinearOrder τ] [Add τ] [Zero τ] in
theorem unheld {r : Runtime τ} {guards pins : List Victim} (h : r.Ordered guards pins) {key : SnapshotKey}
    {m : Manifest τ} (hm : r.pool.manifests.get? key = some m) (hpin : m.pinned = 0) (th : ℕ) :
    (⟨key, m.ident⟩ : Victim) ∉ r.held th := by
  intro hth
  have := h.pinned.spilling key m th hm hth
  omega

omit [LinearOrder τ] [Add τ] [Zero τ] in
theorem count_cons_current (v w : Victim) (l : List Victim) :
    ((w :: l).count v : ℤ) = l.count v + if v = w then 1 else 0 := by
  rw [List.count_cons]
  by_cases h : v = w
  · simp [h]
  · simp [h, Ne.symm h]

omit [LinearOrder τ] [Add τ] [Zero τ] in
theorem count_erase_current {v w : Victim} {l : List Victim} (hw : w ∈ l) :
    ((l.erase w).count v : ℤ) = l.count v + if v = w then -1 else 0 := by
  by_cases h : v = w
  · have hpos := List.count_pos_iff.2 hw
    rw [h, List.count_erase_self, if_pos rfl]
    omega
  · rw [List.count_erase_of_ne h, if_neg h, add_zero]

theorem Sound.enterGuard (h : s.Sound) {key : SnapshotKey} {r : Runtime τ × Outcome}
    (hr : s.runtime.next density (.enterGuard key) = some r) :
    r.1.Ordered (current s.runtime.pool key ++ s.guards) s.pins := by
  simp only [Runtime.next] at hr
  cases hm : s.runtime.pool.manifests.get? key with
  | none =>
    rw [hm] at hr
    obtain rfl := Option.some.inj hr
    rw [current_of_none hm]
    exact h
  | some m =>
    simp only [hm] at hr
    split_ifs at hr with hpin
    obtain rfl := Option.some.inj hr
    rw [current_of_get hm]
    refine ⟨h.pinned.store hm 1 ?_ ?_ (fun v hv => .inl hv), h.todo⟩
    · intro v
      rw [List.singleton_append, count_cons_current]
      ring
    · intro v hv
      cases List.mem_cons.1 hv with
      | inl heq => exact .inr ⟨heq, fun th => heq ▸ unheld h hm hpin th⟩
      | inr hold => exact .inl hold

theorem Sound.leaveGuard (h : s.Sound) {item : Victim} (hin : item ∈ s.guards) {r : Runtime τ × Outcome}
    (hr : s.runtime.next density (.leaveGuard item) = some r) : r.1.Ordered (s.guards.erase item) s.pins := by
  simp only [Runtime.next] at hr
  cases hm : s.runtime.pool.manifests.get? item.key with
  | none =>
    rw [hm] at hr
    obtain rfl := Option.some.inj hr
    refine ⟨h.pinned.drop ?_, h.todo⟩
    rintro ⟨m, hm', _⟩
    rw [hm] at hm'
    cases hm'
  | some m =>
    simp only [hm] at hr
    split_ifs at hr with hid
    · obtain rfl := Option.some.inj hr
      have hitem : item = ⟨item.key, m.ident⟩ := by rw [hid]
      refine ⟨h.pinned.store hm (-1) ?_ (fun v hv => .inl (List.mem_of_mem_erase hv)) (fun v hv => .inl hv), h.todo⟩
      intro v
      rw [count_erase_current hin, ← hitem]
      ring
    · obtain rfl := Option.some.inj hr
      refine ⟨h.pinned.drop ?_, h.todo⟩
      rintro ⟨m', hm', hid'⟩
      rw [hm] at hm'
      rw [Option.some.inj hm'] at hid
      exact hid hid'

omit [LinearOrder τ] [Add τ] [Zero τ] in
theorem Sound.pin (h : s.Sound) (key : SnapshotKey) :
    ({ s.runtime with pool := ((PoolOp.pin key).run s.runtime.pool).2 } : Runtime τ).Ordered s.guards
      (current s.runtime.pool key ++ s.pins) := by
  rcases Pool.lookup_run s.runtime.pool key with ⟨m, hm, hr⟩ | hr
  · simp only [PoolOp.run, PoolOp.body, Pool.pin, Raising.run_bind_ok hr]
    rw [current_of_get hm]
    refine ⟨h.pinned.store hm 1 ?_ (fun v hv => .inl hv) ?_, h.todo⟩
    · intro v
      rw [List.singleton_append, count_cons_current]
      ring
    · intro v hv
      cases List.mem_cons.1 hv with
      | inl heq => exact .inr heq
      | inr hold => exact .inl hold
  · have hnone : s.runtime.pool.manifests.get? key = none := by
      cases hm : s.runtime.pool.manifests.get? key with
      | none => rfl
      | some m => simp [Pool.lookup, hm] at hr
    simp only [PoolOp.run, PoolOp.body, Pool.pin, Raising.run_bind_error hr]
    rw [current_of_none hnone]
    exact h

omit [LinearOrder τ] [Add τ] [Zero τ] in
theorem Sound.unpin (h : s.Sound) {key : SnapshotKey} (hin : current s.runtime.pool key ⊆ s.pins) :
    ({ s.runtime with pool := ((PoolOp.unpin key).run s.runtime.pool).2 } : Runtime τ).Ordered s.guards
      (s.pins.diff (current s.runtime.pool key)) ∧
      ((PoolOp.unpin key).run s.runtime.pool).1 ≠ .error (.pinUnderflow key) := by
  rcases Pool.lookup_run s.runtime.pool key with ⟨m, hm, hr⟩ | hr
  · rw [current_of_get hm] at hin ⊢
    have hmem : (⟨key, m.ident⟩ : Victim) ∈ s.pins := hin (by simp)
    have hcount := List.count_pos_iff.2 hmem
    have hpos : ¬ m.pinned ≤ 0 := by
      by_cases hh : ∃ th, (⟨key, m.ident⟩ : Victim) ∈ s.runtime.held th
      · obtain ⟨th, hth⟩ := hh
        rw [h.pinned.spilling key m th hm hth]
        omega
      · rw [h.pinned.free key m hm (fun th hth => hh ⟨th, hth⟩)]
        omega
    simp only [PoolOp.run, PoolOp.body, Pool.unpin, Raising.run_bind_ok hr, if_neg hpos]
    refine ⟨⟨h.pinned.store hm (-1) ?_ (fun v hv => .inl hv) ?_, h.todo⟩, ?_⟩
    · intro v
      rw [List.diff_cons, List.diff_nil, count_erase_current hmem]
      ring
    · intro v hv
      rw [List.diff_cons, List.diff_nil] at hv
      exact .inl (List.mem_of_mem_erase hv)
    · simp [Pool.store]
  · have hnone : s.runtime.pool.manifests.get? key = none := by
      cases hm : s.runtime.pool.manifests.get? key with
      | none => rfl
      | some m => simp [Pool.lookup, hm] at hr
    simp only [PoolOp.run, PoolOp.body, Pool.unpin, Raising.run_bind_error hr]
    rw [current_of_none hnone, List.diff_nil]
    exact ⟨h, by simp⟩

theorem Sound.step {a : Action τ} {o : Outcome} (h : s.Sound) (hn : next density s a = some (t, o)) : t.Sound := by
  have hother : a.Pins = false → (s.runtime.next density a).map (fun r => ({ s with runtime := r.1 }, r.2)) =
    some (t, o) →
      t.Sound := by
    intro ha hmap
    obtain ⟨⟨r, o'⟩, hr, heq⟩ := Option.map_eq_some_iff.1 hmap
    obtain ⟨rfl, rfl⟩ := Prod.mk.inj heq
    exact Runtime.Ordered.step h hr ha
  cases a with
  | enterGuard key =>
    obtain ⟨r, hr, heq⟩ := Option.map_eq_some_iff.1 hn
    obtain ⟨rfl, rfl⟩ := Prod.mk.inj heq
    exact h.enterGuard hr
  | leaveGuard item =>
    simp only [next] at hn
    split_ifs at hn with hin
    obtain ⟨r, hr, heq⟩ := Option.map_eq_some_iff.1 hn
    obtain ⟨rfl, rfl⟩ := Prod.mk.inj heq
    exact h.leaveGuard hin hr
  | op op =>
    cases op with
    | pin key =>
      simp only [next] at hn
      obtain ⟨r, hr, heq⟩ := Option.map_eq_some_iff.1 hn
      obtain ⟨rfl, rfl⟩ := Prod.mk.inj heq
      obtain rfl := Option.some.inj hr
      exact h.pin key
    | unpin key =>
      simp only [next] at hn
      split_ifs at hn with hin
      obtain ⟨r, hr, heq⟩ := Option.map_eq_some_iff.1 hn
      obtain ⟨rfl, rfl⟩ := Prod.mk.inj heq
      obtain rfl := Option.some.inj hr
      exact (h.unpin hin).1
    | _ => exact hother rfl hn
  | _ => exact hother rfl hn

theorem Sound.reachable (h : Reachable (system density) s) : s.Sound := by
  apply h.invariant
  · intro s hs
    exact Sound.start hs
  · intro s l t hs hstep
    exact hs.step hstep

/-- Every pin of a manifest in the pool belongs to an open guard, to a caller of `pin` or to the one spill that
selected it. -/
structure Accounted (s : Custody τ) : Prop where
  free : ∀ k m, s.runtime.pool.manifests.get? k = some m → (∀ th, ⟨k, m.ident⟩ ∉ s.runtime.held th) →
    m.pinned = s.guards.count ⟨k, m.ident⟩ + s.pins.count ⟨k, m.ident⟩
  spilling : ∀ k m th, s.runtime.pool.manifests.get? k = some m → ⟨k, m.ident⟩ ∈ s.runtime.held th →
    m.pinned = s.guards.count ⟨k, m.ident⟩ + s.pins.count ⟨k, m.ident⟩ + 1
  alone : ∀ th u v, v ∈ s.runtime.held th → v ∈ s.runtime.held u → th = u

omit [LinearOrder τ] [Add τ] [Zero τ] in
theorem Sound.accounted (h : s.Sound) : s.Accounted := ⟨h.pinned.free, h.pinned.spilling, h.pinned.alone⟩

omit [LinearOrder τ] [Add τ] [Zero τ] in
theorem Sound.moving (h : s.Sound) {th : ℕ} {v : Victim} (hm : (s.runtime.threads th).moving = some v) :
    v ∉ s.guards := by
  have htodo : v ∈ (s.runtime.threads th).todo := by
    cases hth : s.runtime.threads th with
    | relocating _ _ item todo | relocated _ _ item todo =>
      rw [hth] at hm
      obtain rfl := Option.some.inj hm
      exact List.mem_cons_self
    | _ =>
      rw [hth] at hm
      cases hm
  exact h.pinned.apart th v (h.todo th v htodo)

theorem select_spec {th : ℕ} {caller : Caller τ} {o : Outcome} (hth : s.runtime.threads th = .selecting caller)
    (hn : next density s (.select th) = some (t, o)) :
    (∃ victims order, t.runtime.pool = s.runtime.pool.pinAll victims ∧
      t.runtime.held th = victims.map (fun m => ⟨m.key, m.ident⟩) ∧
      Pool.Selects density s.runtime.pool caller.args order victims) ∨ t.runtime.pool = s.runtime.pool := by
  simp only [next] at hn
  obtain ⟨r, hr, heq⟩ := Option.map_eq_some_iff.1 hn
  obtain ⟨rfl, rfl⟩ := Prod.mk.inj heq
  simp only [Runtime.next, hth, Option.some.injEq] at hr
  subst hr
  unfold Runtime.select
  cases hv : s.runtime.pool.lruVictims density caller.args with
  | error e => exact .inr (Runtime.settle_releases s.runtime th caller _).pool
  | ok victims =>
    refine .inl ⟨victims, _, rfl, ?_, Pool.lruVictims_selects hv⟩
    change (Runtime.setThread s.runtime th _).held th = _
    rw [Runtime.held_setThread, Function.update_self]
    rfl

theorem unpin_no_underflow (h : s.Sound) {key : SnapshotKey} {o : Outcome}
    (hn : next density s (.op (.unpin key)) = some (t, o)) :
    o ≠ .raised (.pinUnderflow key) := by
  simp only [next] at hn
  split_ifs at hn with hin
  obtain ⟨r, hr, heq⟩ := Option.map_eq_some_iff.1 hn
  obtain ⟨rfl, rfl⟩ := Prod.mk.inj heq
  obtain rfl := Option.some.inj hr
  have hne := (h.unpin hin).2
  intro ho
  apply hne
  simp only [Outcome.of] at ho
  split at ho
  · cases ho
  · rename_i e he
    rw [he, Outcome.raised.inj ho]

omit [LinearOrder τ] [Add τ] [Zero τ] in
/-- The pins of `dropped` are given back, once each, and the manifests are the same otherwise. -/
def Drops (p q : Pool τ) (dropped : List Victim) : Prop :=
  ∀ k, q.manifests.get? k =
    (p.manifests.get? k).map fun m => if ⟨k, m.ident⟩ ∈ dropped then { m with pinned := m.pinned - 1 } else m

def stepsLeft : Thread τ → ℕ
  | .spilling _ _ todo => 3 * todo.length + 2
  | .relocating _ _ _ todo => 3 * todo.length + 4
  | .relocated _ _ _ todo => 3 * todo.length + 3
  | .unpinning .. => 1
  | .idle | .selecting _ | .reserving .. | .waiting .. => 0

def goesOn (th : ℕ) (ok : Bool) : Thread τ → Action τ
  | .relocating .. => .relocate th ok
  | .relocated .. => .retire th
  | .unpinning .. => .unpin th
  | _ => .advance th

omit [LinearOrder τ] [Add τ] [Zero τ] in
theorem Sound.unpinAll_drops (h : s.Sound) (th : ℕ) :
    Drops s.runtime.pool (s.runtime.pool.unpinAll (s.runtime.held th)) (s.runtime.held th) := by
  intro k
  rw [Pool.unpinAll, PyDict.get?_mapValues]
  cases hm : s.runtime.pool.manifests.get? k with
  | none => rfl
  | some m =>
    by_cases hin : (⟨k, m.ident⟩ : Victim) ∈ s.runtime.held th
    · have hpos : m.pinned > 0 := by
        rw [h.pinned.spilling k m th hm hin]
        omega
      simp [hin, hpos]
    · simp [hin]

theorem unpin_drops (h : s.Sound) {th : ℕ} {caller : Caller τ} {victims : List Victim} {result : Except PoolError Unit}
    (hth : s.runtime.threads th = .unpinning caller victims result) :
    ∃ t o, next density s (.unpin th) = some (t, o) ∧ t.runtime.held th = [] ∧ t.guards = s.guards ∧ t.pins = s.pins ∧
      (∀ u, u ≠ th → t.runtime.threads u = s.runtime.threads u) ∧
      Drops s.runtime.pool t.runtime.pool (s.runtime.held th) := by
  have hheld : s.runtime.held th = victims := Runtime.held_of_thread hth
  have hr := Runtime.settle_releases { s.runtime with pool := s.runtime.pool.unpinAll victims } th caller result
  set r := ({ s.runtime with pool := s.runtime.pool.unpinAll victims } : Runtime τ).settle th caller result with hrun
  have hnext : next density s (.unpin th) = some ({ s with runtime := r.1 }, r.2) := by
    simp only [next, Runtime.next, hth, Option.map_some, hrun]
  refine ⟨_, _, hnext, hr.held, rfl, rfl, hr.others, ?_⟩
  have hdrops := h.unpinAll_drops th
  rw [hheld] at hdrops ⊢
  intro k
  rw [hr.pool]
  exact hdrops k

omit [LinearOrder τ] [Add τ] [Zero τ] in
theorem settle_stepsLeft (r : Runtime τ) (th : ℕ) (caller : Caller τ) (result : Except PoolError Unit) :
    stepsLeft ((r.settle th caller result).1.threads th) = 0 := by
  have hself : ∀ (r : Runtime τ) (x : Thread τ), (r.setThread th x).threads th = x := fun r x => Function.update_self ..
  cases caller with
  | spillForAdmission args => simp only [Runtime.settle, hself, stepsLeft]
  | spillObservedExcess => simp only [Runtime.settle, Runtime.leave, hself, stepsLeft]
  | reserveForAdmission key upperBound value =>
    cases result with
    | ok u => simp only [Runtime.settle, hself, stepsLeft]
    | error e =>
      simp only [Runtime.settle, Runtime.handle]
      split_ifs <;> simp only [Runtime.leave, hself, stepsLeft]

theorem goesOn_next {th : ℕ} (hheld : s.runtime.held th ≠ []) (ok : Bool) :
    ∃ t o, next density s (goesOn th ok (s.runtime.threads th)) = some (t, o) ∧
      stepsLeft (t.runtime.threads th) < stepsLeft (s.runtime.threads th) := by
  have hself : ∀ (r : Runtime τ) (x : Thread τ), (r.setThread th x).threads th = x := fun r x => Function.update_self ..
  cases hth : s.runtime.threads th with
  | idle | selecting caller | reserving key upperBound value | waiting key upperBound value e =>
    exact absurd (Runtime.held_of_thread hth) hheld
  | spilling caller victims todo =>
    refine ⟨_, _, by simp only [goesOn, next, Runtime.next, hth, Option.map_some]; rfl, ?_⟩
    cases todo with
    | nil => simp [Runtime.advance, hself, stepsLeft]
    | cons item todo =>
      simp only [Runtime.advance]
      split <;> simp only [hself, stepsLeft, List.length_cons] <;> omega
  | relocating caller victims item todo =>
    refine ⟨_, _, by simp only [goesOn, next, Runtime.next, hth, Option.map_some]; rfl, ?_⟩
    cases ok <;> simp [hself, stepsLeft]
  | relocated caller victims item todo =>
    refine ⟨_, _, by simp only [goesOn, next, Runtime.next, hth, Option.map_some]; rfl, ?_⟩
    simp only [Runtime.retire]
    split <;> simp [hself, stepsLeft]
  | unpinning caller victims result =>
    refine ⟨_, _, by simp only [goesOn, next, Runtime.next, hth, Option.map_some]; rfl, ?_⟩
    exact lt_of_eq_of_lt (settle_stepsLeft _ th caller result) Nat.one_pos

theorem leaveGuard_next (r : Runtime τ) (item : Victim) :
    ∃ r' o, r.next density (.leaveGuard item) = some (r', o) ∧ r'.threads = r.threads ∧
      Drops r.pool r'.pool [item] := by
  have hother : ∀ k, k ≠ item.key → ∀ n, (⟨k, n⟩ : Victim) ≠ item := by
    rintro k hk n rfl
    exact hk rfl
  cases hm : r.pool.manifests.get? item.key with
  | none =>
    refine ⟨_, _, by rw [Runtime.next, hm], rfl, fun k => ?_⟩
    by_cases hk : k = item.key
    · rw [hk, hm]
      rfl
    · simp [hother k hk]
  | some m =>
    by_cases hid : m.ident = item.ident
    · refine ⟨{ r with pool := ((Pool.store item.key { m with pinned := m.pinned - 1 }).run r.pool).2 }, _,
        by simp only [Runtime.next, hm, if_pos hid]; rfl, rfl, fun k => ?_⟩
      simp only [Pool.store, Raising.run_modify, PyDict.get?_set]
      by_cases hk : k = item.key
      · have heq : (⟨item.key, m.ident⟩ : Victim) = item := by rw [hid]
        rw [if_pos hk, hk, hm]
        simp [heq]
      · simp [hother k hk, hk]
    · refine ⟨_, _, by simp only [Runtime.next, hm, if_neg hid]; rfl, rfl, fun k => ?_⟩
      by_cases hk : k = item.key
      · have hne : (⟨item.key, m.ident⟩ : Victim) ≠ item := fun he => hid (congrArg Victim.ident he)
        rw [hk, hm]
        simp [hne]
      · simp [hother k hk]

theorem leaveGuard_drops {item : Victim} (hin : item ∈ s.guards) :
    ∃ t o, next density s (.leaveGuard item) = some (t, o) ∧ t.guards = s.guards.erase item ∧ t.pins = s.pins ∧
      t.runtime.threads = s.runtime.threads ∧ Drops s.runtime.pool t.runtime.pool [item] := by
  obtain ⟨r, o, hr, hthreads, hdrops⟩ : ∃ r o, s.runtime.next density (.leaveGuard item) = some (r, o) ∧ _ :=
    leaveGuard_next s.runtime item
  exact ⟨{ s with runtime := r, guards := s.guards.erase item },
    o, by simp only [next, if_pos hin, hr, Option.map_some], rfl, rfl, hthreads, hdrops⟩

theorem next_runtime {a : Action τ} {o : Outcome} (hn : next density s a = some (t, o)) :
    s.runtime.next density a = some (t.runtime, o) := by
  unfold next at hn
  split at hn
  all_goals
    try split_ifs at hn
    obtain ⟨⟨r, o'⟩, hr, heq⟩ := Option.map_eq_some_iff.1 hn
    obtain ⟨rfl, rfl⟩ := Prod.mk.inj heq
    exact hr

/-- `lru_victims` on every pool, and its pins in every run. -/
theorem victims_and_pins (density : τ → ℤ → τ) {s : Custody τ} (hs : Reachable (system density) s) :
    (∀ p : Pool τ, p.Keyed → ∀ a,
      (∃ victims order, (Pool.lruVictimsCall density a).run p = (.ok victims, p.pinAll victims) ∧
        Pool.Selects density p a order victims) ∨
      ∃ e, (Pool.lruVictimsCall density a).run p = (.error e, p)) ∧
    s.runtime.pool.Keyed ∧
    (∀ th caller t o, s.runtime.threads th = .selecting caller → next density s (.select th) = some (t, o) →
      (∃ victims order, t.runtime.pool = s.runtime.pool.pinAll victims ∧
        t.runtime.held th = victims.map (fun m => ⟨m.key, m.ident⟩) ∧
        Pool.Selects density s.runtime.pool caller.args order victims) ∨ t.runtime.pool = s.runtime.pool) ∧
    (∀ k m, s.runtime.pool.manifests.get? k = some m → 0 ≤ m.pinned) ∧
    s.Accounted ∧
    (s.guards = [] → s.pins = [] → (∀ th, s.runtime.held th = []) →
      ∀ k m, s.runtime.pool.manifests.get? k = some m → m.pinned = 0) ∧
    (∀ key t o, next density s (.op (.unpin key)) = some (t, o) → o ≠ .raised (.pinUnderflow key)) ∧
    (∀ th v, (s.runtime.threads th).moving = some v → v ∉ s.guards) ∧
    (∀ a t o th, next density s a = some (t, o) → t.runtime.held th = s.runtime.held th ∨
      (a = .select th ∧ s.runtime.held th = []) ∨ (a = .unpin th ∧ t.runtime.held th = [])) ∧
    (∀ th ok, s.runtime.held th ≠ [] → ∃ t o, next density s (goesOn th ok (s.runtime.threads th)) = some (t, o) ∧
      stepsLeft (t.runtime.threads th) < stepsLeft (s.runtime.threads th)) ∧
    (∀ th caller victims result, s.runtime.threads th = .unpinning caller victims result →
      ∃ t o, next density s (.unpin th) = some (t, o) ∧ t.runtime.held th = [] ∧ t.guards = s.guards ∧ t.pins = s.pins ∧
        (∀ u, u ≠ th → t.runtime.threads u = s.runtime.threads u) ∧
        Drops s.runtime.pool t.runtime.pool (s.runtime.held th)) ∧
    (∀ item ∈ s.guards, ∃ t o, next density s (.leaveGuard item) = some (t, o) ∧ t.guards = s.guards.erase item ∧
      t.pins = s.pins ∧ t.runtime.threads = s.runtime.threads ∧ Drops s.runtime.pool t.runtime.pool [item]) := by
  have h := Sound.reachable hs
  refine ⟨fun p hp a => Pool.lruVictimsCall_spec density hp a, h.pinned.keyed, ?_, ?_, h.accounted, ?_, ?_, ?_,
    fun a t o th hn => Runtime.held_changes (next_runtime hn) th, fun th ok hheld => goesOn_next hheld ok,
    fun th caller victims result hth => unpin_drops h hth, fun item hin => leaveGuard_drops hin⟩
  · intro th caller t o hth hn
    exact select_spec hth hn
  · intro k m hm
    exact h.pinned.nonneg hm
  · intro hg hp hheld k m hm
    have hfree := h.pinned.free k m hm (by simp [hheld])
    rw [hfree, hg, hp]
    rfl
  · intro key t o hn
    exact unpin_no_underflow h hn
  · intro th v hm
    exact h.moving hm

-- a guarded generation is passed over by a spill, which takes the other one
def guardedSpill : List (Action ℤ) :=
  [.op (.reserve ⟨1, 0, 0⟩ 4),
    .op (.commit ⟨⟨1, 0, 0⟩, 4, 4, none, some 0, none, 0, 1⟩),
    .op (.reserve ⟨2, 0, 0⟩ 4),
    .op (.commit ⟨⟨2, 0, 0⟩, 4, 4, none, some 1, none, 0, 2⟩),
    .enterGuard ⟨1, 0, 0⟩,
    .start 0 (.reserveForAdmission ⟨3, 0, 0⟩ 6 9), .select 0, .advance 0, .op (.retainForVm ⟨1, 0, 0⟩)]

theorem victims_and_pins_guarded :
    let s : Custody ℤ := ⟨{ pool := ⟨10, 10, none, 0, 0, false, 0, ∅, ∅, (∅ : PyDict Sandbox Unit), ∅, ∅, 0⟩ }, [], []⟩
    let t := (trace (next fun v n => v / n) s guardedSpill).1
    (t.runtime.threads 0).moving = some ⟨⟨2, 0, 0⟩, 1⟩ ∧ t.guards = [⟨⟨1, 0, 0⟩, 0⟩] ∧
      (⟨⟨2, 0, 0⟩, 1⟩ : Victim) ∉ t.guards := by
  intro s t
  have hstart : Start s := ⟨⟨10, 10, none, 0, 0, false, _, rfl, rfl⟩, rfl, rfl⟩
  have ht : Reachable (system fun v n => v / n) t := ⟨s, _, hstart, run_trace Start (next fun v n => v / n) _ _⟩
  have hm : (t.runtime.threads 0).moving = some ⟨⟨2, 0, 0⟩, 1⟩ := by decide +kernel
  refine ⟨hm, by decide +kernel, ?_⟩
  exact (victims_and_pins _ ht).2.2.2.2.2.2.2.1 0 _ hm

end Custody

end ClawBox.Snapshot
