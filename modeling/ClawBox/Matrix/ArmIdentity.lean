import ClawBox.Matrix.Experiment

namespace ClawBox.Matrix

open Fields JsonText

theorem map_product {α β γ δ : Type*} (f : α → γ) (g : β → δ) (l₁ : List α) (l₂ : List β) :
    (l₁ ×ˢ l₂).map (Prod.map f g) = l₁.map f ×ˢ l₂.map g := by
  induction l₁ with
  | nil => rfl
  | cons a l₁ ih =>
    rw [List.product_cons, List.map_append, ih, List.map_cons, List.product_cons, List.map_map, List.map_map]
    rfl

theorem product_ne_nil {α β : Type*} {l₁ : List α} {l₂ : List β} (h₁ : l₁ ≠ []) (h₂ : l₂ ≠ []) : l₁ ×ˢ l₂ ≠ [] := by
  obtain ⟨a, l₁, rfl⟩ := List.exists_cons_of_ne_nil h₁
  rw [List.product_cons]
  simp [h₂]

theorem nodup_product {α β : Type*} {l₁ : List α} {l₂ : List β} (h₁ : l₁ ≠ []) (h₂ : l₂ ≠ []) :
    (l₁ ×ˢ l₂).Nodup ↔ l₁.Nodup ∧ l₂.Nodup := by
  constructor
  · intro h
    have hflat := List.nodup_flatMap.1 h
    constructor
    · refine hflat.2.imp ?_
      rintro a b hdis rfl
      obtain ⟨x, l, rfl⟩ := List.exists_cons_of_ne_nil h₂
      exact hdis (a := (a, x)) (by simp) (by simp)
    · obtain ⟨a, l, rfl⟩ := List.exists_cons_of_ne_nil h₁
      exact (hflat.1 a (by simp)).of_map
  · rintro ⟨h, h'⟩
    exact h.product h'

abbrev Key := List Text × ℕ × ℕ × Json

def key : Coordinates → Key :=
  Prod.map (fun g => g.2.map WorkloadCase.caseId) (Prod.map id (Prod.map id fun p => sortKeys p.modelDump))

theorem wellFormedItems_str (l : List Text) : wellFormedItems (l.map Json.str) = true := by
  induction l with
  | nil => rfl
  | cons s l ih => simp [wellFormedItems, wellFormed, ih]

theorem sortItems_str (l : List Text) : sortItems (l.map Json.str) = l.map Json.str := by
  induction l with
  | nil => rfl
  | cons s l ih => simp [sortItems, sortKeys, ih]

theorem wellFormed_modelDump (p : Policy) : wellFormed p.modelDump = true := by
  have h := p.dumpsOk
  simp only [PolicyFields.wellFormed, Bool.and_eq_true] at h
  simp [PolicyFields.modelDump, wellFormed, wellFormedMembers, text, h.1.1, h.1.2, h.2]

theorem wellFormed_identity (s : Spec) (digest : Text) (c : Coordinates) : wellFormed (identity s digest c) = true := by
  have hids : wellFormedItems (c.1.2.map fun i => Json.str i.caseId) = true := by
    have := wellFormedItems_str (c.1.2.map WorkloadCase.caseId)
    rwa [List.map_map] at this
  have hrep := wellFormed_digits c.2.1
  have hlevel := wellFormed_digits c.2.2.1
  have hdump := wellFormed_modelDump c.2.2.2
  rw [identity, wellFormed]
  simp only [wellFormedMembers, hrep, hlevel, hdump, Bool.and_true]
  simp only [wellFormed, text, hids, Bool.and_true]

theorem digits_injective : Function.Injective PyText.digits := by
  intro n m h
  have hn := PyText.toInt_digits n
  rw [h, PyText.toInt_digits] at hn
  exact (Option.some.inj hn).symm

theorem caseIds_items (cases : List WorkloadCase) :
    (cases.map fun i => Json.str i.caseId) = (cases.map WorkloadCase.caseId).map Json.str := by
  rw [List.map_map]
  rfl

theorem sortKeys_identity {s : Spec} {digest : Text} {c c' : Coordinates} :
    sortKeys (identity s digest c) = sortKeys (identity s digest c') ↔ key c = key c' := by
  constructor
  · intro h
    obtain ⟨ids, hids, hids'⟩ :=
      mem_of_sortKeys_eq h (k := "case_ids".toList) (v := .arr (c.1.2.map fun i => .str i.caseId)) (by simp)
    obtain ⟨rep, hrep, hrep'⟩ :=
      mem_of_sortKeys_eq h (k := "repetition".toList) (v := .num (PyText.digits c.2.1)) (by simp)
    obtain ⟨level, hlevel, hlevel'⟩ :=
      mem_of_sortKeys_eq h (k := "concurrency".toList) (v := .num (PyText.digits c.2.2.1)) (by simp)
    obtain ⟨policy, hpolicy, hpolicy'⟩ :=
      mem_of_sortKeys_eq h (k := "policy".toList) (v := c.2.2.2.modelDump) (by simp)
    obtain rfl : ids = .arr (c'.1.2.map fun i => .str i.caseId) := by simpa using hids
    obtain rfl : rep = .num (PyText.digits c'.2.1) := by simpa using hrep
    obtain rfl : level = .num (PyText.digits c'.2.2.1) := by simpa using hlevel
    obtain rfl : policy = c'.2.2.2.modelDump := by simpa using hpolicy
    rw [sortKeys, sortKeys, caseIds_items, caseIds_items, sortItems_str, sortItems_str, Json.arr.injEq] at hids'
    rw [sortKeys_num, sortKeys_num, Json.num.injEq] at hrep' hlevel'
    have hcases : c.1.2.map WorkloadCase.caseId = c'.1.2.map WorkloadCase.caseId :=
      List.map_injective_iff.2 (fun _ _ heq => Json.str.inj heq) hids'
    simp only [key, Prod.map, id, hcases, digits_injective hrep', digits_injective hlevel', hpolicy']
  · intro h
    simp only [key, Prod.map, id, Prod.mk.injEq] at h
    obtain ⟨hcases, hrep, hlevel, hpolicy⟩ := h
    simp only [identity, sortKeys, sortMembers, caseIds_items, hcases, hrep, hlevel, hpolicy]

theorem armIdOf_eq_iff (w : Surroundings) {s : Spec} {digest : Text} {c c' : Coordinates} :
    armIdOf w s digest c = armIdOf w s digest c' ↔ key c = key c' := by
  rw [armIdOf, armIdOf, w.digest_injective.eq_iff,
    canonical_eq_iff (wellFormed_identity s digest c) (wellFormed_identity s digest c'), sortKeys_identity]

theorem name_of_dump {p q : Policy} (h : sortKeys p.modelDump = sortKeys q.modelDump) : p.name = q.name := by
  obtain ⟨name, hname, hname'⟩ := mem_of_sortKeys_eq h (k := "name".toList) (v := .str p.name) (by simp)
  obtain rfl : name = .str q.name := by simpa using hname
  rw [sortKeys_str, sortKeys_str, Json.str.injEq] at hname'
  exact hname'

section Arms

variable {w : Surroundings} {s : Spec} {digest : Text}

theorem makeArm_spec {c : Coordinates} {a : Arm} (h : makeArm w s digest c = some a) :
    a.coordinates = c ∧ a.armId = armIdOf w s digest c ∧ a.specDigest = digest := by
  obtain ⟨x, _, rfl⟩ := Option.map_eq_some_iff.1 h
  exact ⟨rfl, rfl, rfl⟩

theorem makeArms_spec {cs : List Coordinates} {arms : List Arm} (h : makeArms w s digest cs = some arms) :
    arms.map Arm.coordinates = cs ∧ arms.map Arm.armId = cs.map (armIdOf w s digest) ∧
      ∀ a ∈ arms, a.specDigest = digest := by
  induction cs generalizing arms with
  | nil =>
    obtain rfl := Option.some.inj h
    exact ⟨rfl, rfl, by simp⟩
  | cons c cs ih =>
    obtain ⟨a, ha, htail⟩ := Option.bind_eq_some_iff.1 h
    obtain ⟨rest, hrest, rfl⟩ := Option.map_eq_some_iff.1 htail
    obtain ⟨hcoords, hids, hdigests⟩ := ih hrest
    obtain ⟨hc, hid, hd⟩ := makeArm_spec ha
    refine ⟨by simp [hc, hcoords], by simp [hid, hids], ?_⟩
    intro b hb
    rcases List.mem_cons.1 hb with rfl | hb
    · exact hd
    · exact hdigests b hb

theorem makeArms_isSome {cs : List Coordinates} :
    (makeArms w s digest cs).isSome ↔ ∀ c ∈ cs, (armSettings w s c.2.2.2).isSome := by
  induction cs with
  | nil => simp [makeArms]
  | cons c cs ih =>
    rw [List.forall_mem_cons, ← ih, makeArms]
    cases hc : armSettings w s c.2.2.2 with
    | none => simp [makeArm, hc]
    | some x => simp [makeArm, hc]

theorem load_ne_nil {workload : Workload} {cases : List WorkloadCase} (h : loadWorkloadCases w workload = some cases) :
    cases ≠ [] := by
  unfold loadWorkloadCases at h
  split_ifs at h with h₁ h₂
  · rw [← Option.some.inj h]
    simpa using h₁
  · rw [← Option.some.inj h]
    simp
  · have := (Option.filter_eq_some_iff.1 h).2
    rintro rfl
    simp at this

theorem caseGroups_spec (assignment : SessionAssignment) {cases : List WorkloadCase} (hne : cases ≠ []) :
    ∃ groups, caseGroups assignment cases = some groups ∧ groups ≠ [] ∧
      ((groups.map fun g => g.2.map WorkloadCase.caseId).Nodup ↔
        (assignment = .singleCase → (cases.map WorkloadCase.caseId).Nodup)) := by
  obtain ⟨first, rest, rfl⟩ := List.exists_cons_of_ne_nil hne
  cases assignment with
  | singleCase =>
    refine ⟨(first :: rest).map fun c => (c, [c]), by simp [caseGroups], by simp, ?_⟩
    have hids : ((first :: rest).map fun c => (c, [c])).map (fun g => g.2.map WorkloadCase.caseId) =
        ((first :: rest).map WorkloadCase.caseId).map fun i => [i] := by
      simp [Function.comp_def]
    rw [hids, List.nodup_map_iff (fun i j h => List.head_eq_of_cons_eq h)]
    simp
  | roundRobin => exact ⟨[(first, first :: rest)], by simp [caseGroups], by simp, by simp⟩
  | unique => exact ⟨[(first, first :: rest)], by simp [caseGroups], by simp, by simp⟩

theorem nodup_ids {groups : List (WorkloadCase × List WorkloadCase)} (hgroups : groups ≠ []) :
    ((coordinates s groups).map (armIdOf w s digest)).Nodup ↔
      (s.policies ≠ [] → (groups.map fun g => g.2.map WorkloadCase.caseId).Nodup) ∧
        (s.policies.map fun p => sortKeys p.modelDump).Nodup := by
  have hkey : ((coordinates s groups).map (armIdOf w s digest)).Nodup ↔ ((coordinates s groups).map key).Nodup := by
    rw [List.Nodup, List.Nodup, List.pairwise_map, List.pairwise_map]
    simp only [ne_eq, armIdOf_eq_iff]
  have hlevels : s.execution.concurrencyLevels ≠ [] := s.execution.nonempty
  have hreps : List.range s.workload.repetitions ≠ [] := by
    have := s.workload.repeated
    simp
    omega
  rw [hkey, coordinates, key, map_product, map_product, map_product, List.map_id, List.map_id]
  cases hp : s.policies with
  | nil => simp
  | cons p rest =>
    have hdumps : ((p :: rest).map fun p => sortKeys p.modelDump) ≠ [] := by simp
    have hinner := product_ne_nil hlevels hdumps
    have hmiddle := product_ne_nil hreps hinner
    have hids : (groups.map fun g => g.2.map WorkloadCase.caseId) ≠ [] := by simpa using hgroups
    rw [nodup_product hids hmiddle, nodup_product hreps hinner, nodup_product hlevels hdumps]
    simp [List.nodup_range, s.execution.distinct]

/-- No stored result of one arm is taken for another. -/
def NoFalseSkip (arms : List Arm) : Prop :=
  ∀ stored : List ResultEnvelope, (∀ r ∈ stored, r.arm ∈ arms) → ∀ attemptId, ∀ arm ∈ arms, ∀ r,
    (stored.foldl ArmFiles.storeResult {}).completedResult attemptId arm = some r → r.arm = arm

def Planned (w : Surroundings) (s : Spec) : Prop :=
  ∃ digest groups built arms, w.specDigest s = some digest ∧
    (loadWorkloadCases w s.workload).bind (caseGroups s.workload.sessionAssignment) = some groups ∧
    builtArms w s = some built ∧ built.map Arm.coordinates = coordinates s groups ∧
    expandMatrix w s = some arms ∧ arms.Perm built ∧ (arms.map Arm.armId).Nodup ∧
    (∀ a ∈ arms, a.specDigest = digest) ∧ NoFalseSkip arms

def Settles (s : Spec) : Prop :=
  s.schemaVersion ≠ 4 → (∃ p ∈ s.policies, inherits s p = true) →
    s.resources.1.sharedMemoryResidentHeadroomMib = none ∧ s.resources.1.residentCapacityAccounting = false

structure ToldApart (w : Surroundings) (s : Spec) : Prop where
  loads : (loadWorkloadCases w s.workload).isSome
  policies : (s.policies.map fun p => sortKeys p.modelDump).Nodup
  cases : s.workload.sessionAssignment = .singleCase → s.policies ≠ [] →
    ∀ cases, loadWorkloadCases w s.workload = some cases → (cases.map WorkloadCase.caseId).Nodup

theorem stored_result {stored : List ResultEnvelope} {id : Text} {r : ResultEnvelope}
    (h : (stored.foldl ArmFiles.storeResult {}).results id = some r) : r ∈ stored := by
  induction stored using List.reverseRecOn with
  | nil => cases h
  | append_singleton stored q ih =>
    rw [List.foldl_append] at h
    simp only [List.foldl_cons, List.foldl_nil, ArmFiles.storeResult, Function.update_apply] at h
    split_ifs at h
    · obtain rfl := Option.some.inj h
      simp
    · exact List.mem_append_left _ (ih h)

theorem noFalseSkip {arms : List Arm} (h : (arms.map Arm.armId).Nodup) : NoFalseSkip arms := by
  intro stored hstored attemptId arm harm r hr
  unfold ArmFiles.completedResult at hr
  split at hr
  · rename_i q marker hq hm
    split_ifs at hr with hok
    obtain rfl := Option.some.inj hr
    exact List.inj_on_of_nodup_map h (hstored q (stored_result hq)) harm hok.2.2.1
  · cases hr

theorem armSettings_isSome (hs : accepted w s = true) :
    (∀ p ∈ s.policies, (armSettings w s p).isSome) ↔ Settles s := by
  unfold Settles
  by_cases hv : s.schemaVersion = 4
  · simp only [hv, ne_eq, not_true_eq_false, false_implies, iff_true]
    intro p hp
    simp only [accepted, hv, if_true, Bool.and_eq_true, List.all_eq_true] at hs
    simpa [armSettings, hv] using hs.2 p hp
  · have hsome : ∀ p, (armSettings w s p).isSome ↔ (inherits s p = true → s.resources.1.osManaged.validate.isSome) := by
      intro p
      by_cases hi : inherits s p = true
      · simp [armSettings, hv, hi]
      · simp [armSettings, hv, hi]
    simp only [hsome, Resources.validate_osManaged s.resources.2, hv, ne_eq, not_false_eq_true, true_implies]
    constructor
    · rintro h ⟨p, hp, hi⟩
      exact h p hp hi
    · intro h p hp hi
      exact h ⟨p, hp, hi⟩

theorem forall_coordinates {groups : List (WorkloadCase × List WorkloadCase)} (hgroups : groups ≠ [])
    (P : Policy → Prop) :
    (∀ c ∈ coordinates s groups, P c.2.2.2) ↔ ∀ p ∈ s.policies, P p := by
  obtain ⟨g, rest, rfl⟩ := List.exists_cons_of_ne_nil hgroups
  obtain ⟨level, levels, hlevels⟩ := List.exists_cons_of_ne_nil s.execution.nonempty
  constructor
  · intro h p hp
    apply h (g, 0, level, p)
    have hrep := s.workload.repeated
    simp only [coordinates, List.mem_product, List.mem_cons, true_or, List.mem_range, hlevels, true_and]
    exact ⟨by omega, hp⟩
  · rintro h ⟨g', rep, level', p⟩ hc
    simp only [coordinates, List.mem_product] at hc
    exact h p hc.2.2.2

theorem planned_iff (hs : accepted w s = true) :
    Planned w s ↔ (w.specDigest s).isSome ∧ Settles s ∧ ToldApart w s := by
  constructor
  · rintro ⟨digest, groups, built, arms, hd, hgroups, hbuilt, -, -, hperm, hids, -, -⟩
    obtain ⟨cases, hload, hcases⟩ := Option.bind_eq_some_iff.1 hgroups
    obtain ⟨groups', hgroups', hne, hgroupIds⟩ := caseGroups_spec s.workload.sessionAssignment (load_ne_nil hload)
    obtain rfl : groups = groups' := Option.some.inj (hcases.symm.trans hgroups')
    have hmake : makeArms w s digest (coordinates s groups) = some built := by
      simpa [builtArms, hd, hload, hcases] using hbuilt
    have hsettings := makeArms_isSome.1 (Option.isSome_iff_exists.2 ⟨built, hmake⟩)
    rw [forall_coordinates hne fun p => (armSettings w s p).isSome, armSettings_isSome hs] at hsettings
    have hnodup : ((coordinates s groups).map (armIdOf w s digest)).Nodup := by
      rw [← (makeArms_spec hmake).2.1]
      exact (hperm.map Arm.armId).nodup_iff.1 hids
    obtain ⟨hcaseIds, hpolicies⟩ := (nodup_ids hne).1 hnodup
    refine ⟨Option.isSome_iff_exists.2 ⟨digest, hd⟩, hsettings, Option.isSome_iff_exists.2 ⟨cases, hload⟩, hpolicies,
      ?_⟩
    intro hsingle hp cases' hload'
    obtain rfl : cases = cases' := Option.some.inj (hload.symm.trans hload')
    exact hgroupIds.1 (hcaseIds hp) hsingle
  · rintro ⟨hdigest, hsettles, htold⟩
    obtain ⟨digest, hd⟩ := Option.isSome_iff_exists.1 hdigest
    obtain ⟨cases, hload⟩ := Option.isSome_iff_exists.1 htold.loads
    obtain ⟨groups, hgroups, hne, hgroupIds⟩ := caseGroups_spec s.workload.sessionAssignment (load_ne_nil hload)
    have hsettings : ∀ c ∈ coordinates s groups, (armSettings w s c.2.2.2).isSome := by
      rw [forall_coordinates hne fun p => (armSettings w s p).isSome, armSettings_isSome hs]
      exact hsettles
    have hmakes : (makeArms w s digest (coordinates s groups)).isSome := makeArms_isSome.2 hsettings
    obtain ⟨built, hmake⟩ := Option.isSome_iff_exists.1 hmakes
    obtain ⟨hcoords, hids, hdigests⟩ := makeArms_spec hmake
    have hbuilt : builtArms w s = some built := by simp [builtArms, hd, hload, hgroups, hmake]
    let arms := if s.execution.randomizedOrder then w.shuffle s.execution.randomSeed built else built
    have hperm : arms.Perm built := by
      simp only [arms]
      split_ifs
      · exact w.shuffle_perm _ built
      · exact .refl built
    have hnodup : (arms.map Arm.armId).Nodup := by
      rw [(hperm.map Arm.armId).nodup_iff, hids, nodup_ids hne]
      refine ⟨fun hp => hgroupIds.2 fun hsingle => htold.cases hsingle hp cases hload, htold.policies⟩
    refine ⟨digest, groups, built, arms, hd, by simp [hload, hgroups], hbuilt,
      hcoords, by simp [expandMatrix, hbuilt, arms], hperm, hnodup, ?_, noFalseSkip hnodup⟩
    intro a ha
    exact hdigests a (hperm.mem_iff.1 ha)

theorem toldApart_of_valid (hs : valid w s = true) (hb : s.execution.snapshotBranching = none) : ToldApart w s := by
  unfold valid at hs
  rw [hb] at hs
  cases hst : s.resources.1.snapshotSchedulingStorage with
  | some storage => simp [hst] at hs
  | none =>
    simp only [hst, plainRefused] at hs
    cases hload : loadWorkloadCases w s.workload with
    | none => simp [hload] at hs
    | some cases =>
      simp only [hload, Bool.not_eq_true', Bool.or_eq_false_iff, Bool.not_eq_false', decide_eq_true_eq] at hs
      obtain ⟨⟨⟨⟨⟨hcases, -⟩, -⟩, -⟩, hnames⟩, -⟩ := hs
      refine ⟨Option.isSome_iff_exists.2 ⟨cases, hload⟩, ?_, ?_⟩
      · rw [List.Nodup, List.pairwise_map] at hnames ⊢
        exact hnames.imp fun hne heq => hne (name_of_dump heq)
      · intro _ _ cases' hload'
        obtain rfl : cases = cases' := Option.some.inj (hload.symm.trans hload')
        exact hcases

theorem effectiveSpec_spec {p : Policy} {e : Spec} (h : effectiveSpec w s p = some e) :
    e.workload = s.workload ∧ e.policies ≠ [] ∧ valid w e = true := by
  obtain ⟨hmap, hvalid⟩ := Option.filter_eq_some_iff.1 h
  obtain ⟨x, _, rfl⟩ := Option.map_eq_some_iff.1 hmap
  exact ⟨rfl, by simp, hvalid⟩

theorem toldApart_of_design (hs : accepted w s = true) (hv : s.schemaVersion = 4) {p : Policy} {e : Spec}
    (he : effectiveSpec w s p = some e) (hb : e.execution.snapshotBranching = none) : ToldApart w s := by
  simp only [accepted, hv, if_true, Bool.and_eq_true, decide_eq_true_eq] at hs
  obtain ⟨⟨-, hnames⟩, -⟩ := hs
  obtain ⟨hworkload, hpolicies, hvalid⟩ := effectiveSpec_spec he
  have htold := toldApart_of_valid hvalid hb
  refine ⟨hworkload ▸ htold.loads, ?_, ?_⟩
  · rw [List.Nodup, List.pairwise_map] at hnames ⊢
    exact hnames.imp fun hne heq => hne (name_of_dump heq)
  · intro hsingle _ cases hload
    exact htold.cases (hworkload ▸ hsingle) hpolicies cases (hworkload ▸ hload)

theorem expandMatrix_identity (hs : accepted w s = true) :
    (Planned w s ↔ (w.specDigest s).isSome ∧ Settles s ∧ ToldApart w s) ∧
    (s.schemaVersion ≠ 4 → s.execution.snapshotBranching = none →
      (Planned w s ↔ (w.specDigest s).isSome ∧ Settles s)) ∧
    (s.schemaVersion = 4 → ∀ p e, effectiveSpec w s p = some e → e.execution.snapshotBranching = none →
      (Planned w s ↔ (w.specDigest s).isSome)) := by
  refine ⟨planned_iff hs, ?_, ?_⟩
  · intro hv hb
    have hvalid : valid w s = true := by simpa [accepted, hv] using hs
    rw [planned_iff hs]
    simp [toldApart_of_valid hvalid hb]
  · intro hv p e he hb
    have hsettles : Settles s := fun hne => absurd hv hne
    rw [planned_iff hs]
    simp [toldApart_of_design hs hv he hb, hsettles]

end Arms

def plainSurroundings : Surroundings where
  records _ _ := none
  otherwiseRefused _ _ := false
  overridden s _ := some (s.execution, s.resources)
  specDigest _ := some "d".toList
  digest text := text
  digest_injective _ _ h := h
  shuffle _ arms := arms
  shuffle_perm _ arms := .refl arms

def residentPolicy : Policy where
  name := "resident".toList
  admission := .off
  reclamation := .resident
  eviction := .none
  restore := .none
  namedOk := by decide
  tupleOk := by decide
  dumpsOk := by decide

def computeNode (nodeId : Text) (numaNode : ℕ) : ComputeNode where
  nodeId := nodeId
  numaNode := numaNode
  cpus := {numaNode}
  memoryCapacityMib := 65536
  lowWatermarkMib := 32768
  highWatermarkMib := 49152
  ordered := by decide

def twoRoots : SchedulingStorage where
  localRoots := [("node0".toList, "/local0".toList), ("node1".toList, "/local1".toList)]
  sharedMounts := [("node0".toList, "/shared0".toList), ("node1".toList, "/shared1".toList)]
  warmRoot := "/warm".toList
  keys := by decide
  nodes := by decide
  plain := by decide
  distinct := by decide

def branchingSpec (cases : List WorkloadCase) (h : casesRefused .synthetic cases .singleCase = false) : Spec where
  schemaVersion := 3
  workload :=
    { source := .synthetic, input := "rollouts".toList, cases, sessionAssignment := .singleCase
      repeated := le_refl 1, matched := h }
  execution :=
    { placementPolicy := .affinity
      snapshotBranching := some
        { parentNodes := List.replicate 8 "node0".toList ++ List.replicate 8 "node1".toList
          complete := by decide
          two := by decide }
      nonempty := by decide
      positive := by decide
      distinct := by decide }
  resources := ⟨
    { computeNodes := [computeNode "node0".toList 0, computeNode "node1".toList 1]
      snapshotSchedulingStorage := some twoRoots
      poolMemoryBudgetMib := 98304
      warmMemoryCapacityMib := 32768
      warmNumaNode := some 2
      coldSnapshotRoot := some "/cold".toList }, by decide +kernel⟩
  policies := [residentPolicy]

def rollout (caseId : Text) (prompt : Text) (h : caseId ≠ []) : WorkloadCase := ⟨caseId, .synthetic, prompt, h⟩

def apartSpec : Spec :=
  branchingSpec [rollout "a".toList "first".toList (by decide), rollout "b".toList "second".toList (by decide)]
    (by decide)

theorem expandMatrix_identity_apart : accepted plainSurroundings apartSpec = true ∧
    Planned plainSurroundings apartSpec := by
  have hs : accepted plainSurroundings apartSpec = true := by decide +kernel
  refine ⟨hs, (expandMatrix_identity hs).1.2 ⟨rfl, ?_, ?_, ?_, ?_⟩⟩
  · rintro - ⟨p, hp, hi⟩
    obtain rfl : p = residentPolicy := by simpa [apartSpec, branchingSpec] using hp
    exact absurd hi (by decide)
  · rfl
  · simp [apartSpec, branchingSpec]
  · intro _ _ cases hload
    obtain rfl := Option.some.inj hload
    decide

def sharedSpec : Spec :=
  branchingSpec [rollout "a".toList "first".toList (by decide), rollout "a".toList "second".toList (by decide)]
    (by decide)

def sharedArm (prompt : Text) : Arm where
  armId := armIdOf plainSurroundings sharedSpec "d".toList
    ((rollout "a".toList prompt (by decide), [rollout "a".toList prompt (by decide)]), 0, 1, residentPolicy)
  specDigest := "d".toList
  case := rollout "a".toList prompt (by decide)
  sessionCases := [rollout "a".toList prompt (by decide)]
  sessionAssignment := .singleCase
  repetition := 0
  concurrency := 1
  policy := residentPolicy
  execution := sharedSpec.execution
  resources := { sharedSpec.resources.1 with warmMemoryCapacityMib := 0 }

theorem shared_caseId_skips : accepted plainSurroundings sharedSpec = true ∧ ¬ Planned plainSurroundings sharedSpec ∧
    expandMatrix plainSurroundings sharedSpec = some [sharedArm "first".toList, sharedArm "second".toList] ∧
    (sharedArm "first".toList).case ≠ (sharedArm "second".toList).case ∧
    (({} : ArmFiles).storeResult ⟨sharedArm "first".toList, "run".toList, true, true⟩).completedResult "run".toList
      (sharedArm "second".toList) = some ⟨sharedArm "first".toList, "run".toList, true, true⟩ := by
  have hs : accepted plainSurroundings sharedSpec = true := by decide +kernel
  have hexpand : expandMatrix plainSurroundings sharedSpec =
      some [sharedArm "first".toList, sharedArm "second".toList] := rfl
  have hsame : (sharedArm "second".toList).armId = (sharedArm "first".toList).armId := rfl
  refine ⟨hs, ?_, hexpand, by decide, ?_⟩
  · rintro ⟨-, -, -, arms, -, -, -, -, harms, -, hids, -, -⟩
    obtain rfl := Option.some.inj (hexpand.symm.trans harms)
    rw [List.map_cons, List.map_singleton, hsame, List.nodup_cons] at hids
    exact hids.1 (List.mem_singleton_self _)
  · simp only [ArmFiles.storeResult, ArmFiles.completedResult, hsame, Function.update_self, if_true]
    exact if_pos ⟨trivial, trivial, trivial, rfl, by decide, trivial⟩

end ClawBox.Matrix
