import ClawBox.Lib.JsonValue
import ClawBox.PolicySsh.Envelope

namespace ClawBox.PolicySsh

open JsonText Quoting

section Texts

theorem mem_base64 {s : Text} {c : Char} (h : c ∈ base64 s) : 45 ≤ c.toNat ∧ c.toNat < 128 := Base64Url.mem_encode h

theorem base64_ne_nil {s : Text} (h : s ≠ []) : base64 s ≠ [] := by
  apply Base64Url.encode_ne_nil
  intro hnil
  exact h (Utf8.encode_inj.1 (hnil.trans Utf8.encode_nil.symm))

theorem mem_header {s : Text} {c : Char} (h : c ∈ "b64:".toList ++ base64 s) : 45 ≤ c.toNat ∧ c.toNat < 128 := by
  rcases List.mem_append.1 h with h | h
  · have hlist : "b64:".toList = ['b', '6', '4', ':'] := rfl
    rw [hlist] at h
    simp only [List.mem_cons, List.not_mem_nil, or_false] at h
    rcases h with rfl | rfl | rfl | rfl <;> exact ⟨by decide, by decide⟩
  · exact mem_base64 h

theorem cut_header (s rest : Text) :
    Fields.cut '\n' ("b64:".toList ++ base64 s ++ '\n' :: rest) = some ("b64:".toList ++ base64 s, rest) := by
  apply PyText.cut_append
  intro h
  exact absurd (mem_header h).1 (by decide)

theorem trimSpace_header (s : Text) : Fields.trimSpace ("b64:".toList ++ base64 s) = "b64:".toList ++ base64 s := by
  have hplain : ∀ t : Text, (∀ c ∈ t, 45 ≤ c.toNat ∧ c.toNat < 128) → Fields.trimLeft t = t := by
    intro t ht
    cases t with
    | nil => rfl
    | cons c t =>
      have hc := ht c List.mem_cons_self
      have hspace : Fields.isSpace c = false := by
        simp only [Fields.isSpace, Bool.or_eq_false_iff, Bool.and_eq_false_iff, decide_eq_false_iff_not]
        omega
      rw [Fields.trimLeft, List.dropWhile_cons_of_neg (by simp [hspace])]
  rw [Fields.trimSpace, hplain _ fun c hc => mem_header hc, hplain, List.reverse_reverse]
  intro c hc
  exact mem_header (List.mem_reverse.1 hc)

theorem b64urlDecode_base64 (s : Text) : b64urlDecode (base64 s) = some (Utf8.encode s) :=
  Base64Url.decodeLenient_encode _

theorem decodeRaw_base64 (s : Text) : Base64Url.decodeRaw (base64 s) = some (Utf8.encode s) :=
  Base64Url.decodeRaw_encode _

theorem isPrefixOf?_header (s : Text) : "b64:".toList.isPrefixOf? ("b64:".toList ++ base64 s) = some (base64 s) :=
  PyText.isPrefixOf?_self_append _ _

end Texts

section Dictionaries

theorem get?_dictOf {l : List (Text × Json)} (hnd : (l.map Prod.fst).Nodup) (k : Text) :
    (dictOf l).get? k = (l.find? (·.1 = k)).map Prod.snd := by
  rw [dictOf, PyDict.get?_foldl_set hnd, PyDict.get?_empty, Option.or_none]

theorem get?_dictOf_eq_some {l : List (Text × Json)} (hnd : (l.map Prod.fst).Nodup) {k : Text} {j : Json} :
    (dictOf l).get? k = some j ↔ (k, j) ∈ l := by
  rw [get?_dictOf hnd]
  constructor
  · intro h
    obtain ⟨m, hm, rfl⟩ := Option.map_eq_some_iff.1 h
    have hk : m.1 = k := by simpa using List.find?_some hm
    subst hk
    exact List.mem_of_find?_eq_some hm
  · intro h
    rw [PyDict.find?_of_mem hnd h]
    rfl

theorem dictOf_entries (d : PyDict Text Json) : dictOf d.entries = d := by
  apply PyDict.ext_get?
  · have hempty : (∅ : PyDict Text Json).keys = [] := rfl
    rw [dictOf, PyDict.keys_foldl_set d.nodup, hempty]
    simp [PyDict.keys]
  · intro k
    rw [get?_dictOf d.nodup]
    rfl

theorem mem_dictOf {l : List (Text × Json)} {m : Text × Json} (h : m ∈ (dictOf l).entries) : m ∈ l := by
  have hfold : ∀ (l : List (Text × Json)) (d : PyDict Text Json) (m : Text × Json),
      m ∈ (l.foldl (fun d m => d.set m.1 m.2) d).entries → m ∈ d.entries ∨ m ∈ l := by
    intro l
    induction l with
    | nil => exact fun d m hm => .inl hm
    | cons x l ih =>
      intro d m hm
      rcases ih _ _ hm with hm | hm
      · have hget := PyDict.get?_eq_some.2 hm
        rw [PyDict.get?_set] at hget
        split_ifs at hget with hkey
        · right
          obtain rfl : m = x := Prod.ext hkey (Option.some.inj hget).symm
          exact List.mem_cons_self
        · exact .inl (PyDict.get?_eq_some.1 hget)
      · exact .inr (List.mem_cons_of_mem _ hm)
  rcases hfold l ∅ m h with h | h
  · cases h
  · exact h

variable (N : Python)

theorem decodedMembers_eq (l : List (Text × Json)) : decodedMembers N l = l.map fun m => (m.1, decoded N m.2) := by
  induction l with
  | nil => rfl
  | cons m l ih => rw [decodedMembers, ih]; rfl

theorem keys_decodedMembers (l : List (Text × Json)) : (decodedMembers N l).map Prod.fst = l.map Prod.fst := by
  rw [decodedMembers_eq, List.map_map]
  rfl

theorem get?_decodedMembers {l : List (Text × Json)} (hnd : (l.map Prod.fst).Nodup) (k : Text) :
    (dictOf (decodedMembers N l)).get? k = ((dictOf l).get? k).map (decoded N) := by
  have hnd' : ((decodedMembers N l).map Prod.fst).Nodup := by
    rw [keys_decodedMembers]
    exact hnd
  rw [get?_dictOf hnd', get?_dictOf hnd, decodedMembers_eq, List.find?_map, Option.map_map, Option.map_map]
  rfl

theorem sortKeys_entries (d : PyDict Text Json) : ∃ l, sortKeys (.obj d.entries) = .obj l ∧ (l.map Prod.fst).Nodup ∧
    (∀ k, (dictOf l).get? k = (d.get? k).map sortKeys) ∧ ∀ m ∈ l, m.1 ∈ d.keys := by
  have hperm := List.perm_insertionSort (fun a b => keyLe a b = true) (sortMembers d.entries)
  have hkeys : (sortMembers d.entries).map Prod.fst = d.entries.map Prod.fst := by
    rw [sortMembers_eq, List.map_map]
    rfl
  have hnd : ((sortMembers d.entries).map Prod.fst).Nodup := by
    rw [hkeys]
    exact d.nodup
  refine ⟨_, by rw [sortKeys], (hperm.map _).nodup_iff.2 hnd, ?_, ?_⟩
  · intro k
    rw [get?_dictOf ((hperm.map _).nodup_iff.2 hnd), Value.find?_perm hperm ((hperm.map _).nodup_iff.2 hnd),
      sortMembers_eq, List.find?_map, Option.map_map, PyDict.get?, Option.map_map]
    rfl
  · intro m hm
    have hmem := List.mem_map_of_mem (f := Prod.fst) (hperm.mem_iff.1 hm)
    rw [hkeys] at hmem
    exact hmem

end Dictionaries

section Numbers

variable (N : Python)

/-- `repr` of a finite number is a JSON number, and `float` reads it back. -/
structure Python.Lawful : Prop where
  numeral_repr : ∀ f, N.finite f = true → numeral (N.repr f) = true ∧ (N.repr f).all numberChar = true
  float_repr : ∀ f, N.finite f = true → N.float (N.repr f) = some f

def Regular (t : Text) : Prop :=
  numeral t = true ∧ t.all numberChar = true ∧ (integral t = true ∨ ∃ f, N.float t = some f ∧ N.finite f = true)

mutual

def Writable : Json → Prop
  | .num t => Regular N t
  | .arr l => WritableItems l
  | .obj l => WritableMembers l
  | .null => True
  | .bool _ => True
  | .str _ => True

def WritableItems : List Json → Prop
  | [] => True
  | j :: l => Writable j ∧ WritableItems l

def WritableMembers : List (Text × Json) → Prop
  | [] => True
  | (_, j) :: l => Writable j ∧ WritableMembers l

end

variable {N}

theorem writableMembers_iff {l : List (Text × Json)} : WritableMembers N l ↔ ∀ m ∈ l, Writable N m.2 := by
  induction l with
  | nil => simp [WritableMembers]
  | cons m l ih => rw [WritableMembers, ih, List.forall_mem_cons]

theorem Writable.obj {l : List (Text × Json)} : Writable N (.obj l) ↔ ∀ m ∈ l, Writable N m.2 := by
  rw [Writable, writableMembers_iff]

mutual

theorem Writable.wellFormed {j : Json} (h : Writable N j) : wellFormed j = true := by
  match j with
  | .null => simp [JsonText.wellFormed]
  | .bool b => simp [JsonText.wellFormed]
  | .str s => simp [JsonText.wellFormed]
  | .num t =>
    rw [Writable] at h
    rw [JsonText.wellFormed, h.1, h.2.1]
    rfl
  | .arr l =>
    rw [Writable] at h
    rw [JsonText.wellFormed]
    exact WritableItems.wellFormed h
  | .obj l =>
    rw [Writable] at h
    rw [JsonText.wellFormed]
    exact WritableMembers.wellFormed h

theorem WritableItems.wellFormed {l : List Json} (h : WritableItems N l) : wellFormedItems l = true := by
  match l with
  | [] => rfl
  | j :: l =>
    rw [WritableItems] at h
    rw [wellFormedItems, Writable.wellFormed h.1, WritableItems.wellFormed h.2]
    rfl

theorem WritableMembers.wellFormed {l : List (Text × Json)} (h : WritableMembers N l) : wellFormedMembers l = true := by
  match l with
  | [] => rfl
  | (k, j) :: l =>
    rw [WritableMembers] at h
    rw [wellFormedMembers, Writable.wellFormed h.1, WritableMembers.wellFormed h.2]
    rfl

end

theorem Regular.renumber (hN : N.Lawful) {t : Text} (h : Regular N t) : Regular N (renumber N t) := by
  obtain ⟨hnum, hchars, hint⟩ := h
  by_cases hi : integral t = true
  · rw [PolicySsh.renumber, if_pos hi]
    split_ifs with hzero
    · exact ⟨by decide, by decide, .inl (by decide)⟩
    · exact ⟨hnum, hchars, .inl hi⟩
  · obtain ⟨f, hf, hfinite⟩ := hint.resolve_left hi
    rw [PolicySsh.renumber, if_neg hi, hf, Option.map_some, Option.getD_some]
    obtain ⟨hnum', hchars'⟩ := hN.numeral_repr f hfinite
    exact ⟨hnum', hchars', .inr ⟨f, hN.float_repr f hfinite, hfinite⟩⟩

mutual

theorem Writable.decoded (hN : N.Lawful) {j : Json} (h : Writable N j) : Writable N (decoded N j) := by
  match j with
  | .null => exact h
  | .bool b => exact h
  | .str s => exact h
  | .num t =>
    rw [Writable] at h
    rw [PolicySsh.decoded, Writable]
    exact h.renumber hN
  | .arr l =>
    rw [Writable] at h
    rw [PolicySsh.decoded, Writable]
    exact WritableItems.decoded hN h
  | .obj l =>
    rw [Writable] at h
    rw [PolicySsh.decoded, Writable.obj]
    intro m hm
    exact WritableMembers.decoded hN h m (mem_dictOf hm)

theorem WritableItems.decoded (hN : N.Lawful) {l : List Json} (h : WritableItems N l) :
    WritableItems N (decodedItems N l) := by
  match l with
  | [] => exact h
  | j :: l =>
    rw [WritableItems] at h
    rw [decodedItems, WritableItems]
    exact ⟨Writable.decoded hN h.1, WritableItems.decoded hN h.2⟩

theorem WritableMembers.decoded (hN : N.Lawful) {l : List (Text × Json)} (h : WritableMembers N l) :
    ∀ m ∈ decodedMembers N l, Writable N m.2 := by
  match l with
  | [] => exact fun m hm => by cases hm
  | (k, j) :: l =>
    rw [WritableMembers] at h
    rw [decodedMembers]
    exact List.forall_mem_cons.2 ⟨Writable.decoded hN h.1, WritableMembers.decoded hN h.2⟩

end

mutual

theorem Writable.sortKeys {j : Json} (h : Writable N j) : Writable N (sortKeys j) := by
  match j with
  | .null => simpa [JsonText.sortKeys] using h
  | .bool b => simpa [JsonText.sortKeys] using h
  | .str s => simpa [JsonText.sortKeys] using h
  | .num t => simpa [JsonText.sortKeys] using h
  | .arr l =>
    rw [Writable] at h
    rw [JsonText.sortKeys, Writable]
    exact WritableItems.sortKeys h
  | .obj l =>
    rw [Writable] at h
    rw [JsonText.sortKeys, Writable.obj]
    intro m hm
    exact WritableMembers.sortKeys h m ((List.perm_insertionSort _ _).mem_iff.1 hm)

theorem WritableItems.sortKeys {l : List Json} (h : WritableItems N l) : WritableItems N (sortItems l) := by
  match l with
  | [] => exact h
  | j :: l =>
    rw [WritableItems] at h
    rw [sortItems, WritableItems]
    exact ⟨Writable.sortKeys h.1, WritableItems.sortKeys h.2⟩

theorem WritableMembers.sortKeys {l : List (Text × Json)} (h : WritableMembers N l) :
    ∀ m ∈ sortMembers l, Writable N m.2 := by
  match l with
  | [] => exact fun m hm => by cases hm
  | (k, j) :: l =>
    rw [WritableMembers] at h
    rw [sortMembers]
    exact List.forall_mem_cons.2 ⟨Writable.sortKeys h.1, WritableMembers.sortKeys h.2⟩

end

end Numbers

section Bridge

def bridgeNames : List Text :=
  ["v".toList, "execution_id".toList, "profile_command_b64".toList, "progress_control".toList]

structure Told where
  executionId : Text
  profile : Text
  toolName : Text
  receipt : Text

structure Carries (d : PyDict Text Json) (x : Told) : Prop where
  version : d.get? "v".toList = some (.num "1".toList)
  executionId : d.get? "execution_id".toList = some (.str x.executionId)
  profile : d.get? "profile_command_b64".toList = some (.str (base64 x.profile))
  toolName : textOf (d.get? "tool_name".toList) = x.toolName
  receipt : textOf (d.get? "prediction_receipt".toList) = x.receipt
  names : ∀ k ∈ d.keys, foldName k ∈ bridgeNames → k ∈ bridgeNames

theorem foldName_of_mem {k : Text} (h : k ∈ bridgeNames) : foldName k = k := by
  have hall : ∀ k ∈ bridgeNames, foldName k = k := by
    simp only [bridgeNames, List.mem_cons, List.not_mem_nil, or_false]
    rintro k (rfl | rfl | rfl | rfl) <;> rfl
  exact hall k h

theorem Carries.foldName_eq {d : PyDict Text Json} {x : Told} {k name : Text} (h : Carries d x)
    (hk : k ∈ d.keys) (hname : name ∈ bridgeNames) : foldName k = name ↔ k = name := by
  constructor
  · rintro rfl
    exact (foldName_of_mem (h.names k hk hname)).symm
  · rintro rfl
    exact foldName_of_mem hname

theorem assign_member {executionId b64 : Text} {m : Text × Json} (x : ExecEnvelope)
    (hv : foldName m.1 = "v".toList → m.2 = .num "1".toList)
    (hid : foldName m.1 = "execution_id".toList → m.2 = .str executionId)
    (hb : foldName m.1 = "profile_command_b64".toList → m.2 = .str b64) :
    x.assign m = some
      ⟨if foldName m.1 = "v".toList then 1 else x.version,
        if foldName m.1 = "execution_id".toList then executionId else x.executionId,
        if foldName m.1 = "profile_command_b64".toList then b64 else x.profileCommandB64⟩ := by
  obtain ⟨k, j⟩ := m
  simp only at hv hid hb ⊢
  unfold ExecEnvelope.assign
  simp only
  by_cases h₁ : foldName k = "v".toList
  · obtain rfl := hv h₁
    rw [h₁]
    rfl
  by_cases h₂ : foldName k = "execution_id".toList
  · obtain rfl := hid h₂
    rw [h₂]
    rfl
  by_cases h₃ : foldName k = "profile_command_b64".toList
  · obtain rfl := hb h₃
    rw [h₃]
    rfl
  simp only [if_neg h₁, if_neg h₂, if_neg h₃]
  cases j <;> rfl

theorem assign_fold {executionId b64 : Text} {l : List (Text × Json)} {x : ExecEnvelope}
    (hv : ∀ m ∈ l, foldName m.1 = "v".toList → m.2 = .num "1".toList)
    (hid : ∀ m ∈ l, foldName m.1 = "execution_id".toList → m.2 = .str executionId)
    (hb : ∀ m ∈ l, foldName m.1 = "profile_command_b64".toList → m.2 = .str b64)
    (hv' : x.version = 1 ∨ ∃ m ∈ l, foldName m.1 = "v".toList)
    (hid' : x.executionId = executionId ∨ ∃ m ∈ l, foldName m.1 = "execution_id".toList)
    (hb' : x.profileCommandB64 = b64 ∨ ∃ m ∈ l, foldName m.1 = "profile_command_b64".toList) :
    l.foldlM ExecEnvelope.assign x = some ⟨1, executionId, b64⟩ := by
  induction l generalizing x with
  | nil =>
    obtain ⟨version, id, b⟩ := x
    simp only [List.not_mem_nil, false_and, exists_false, or_false] at hv' hid' hb'
    subst hv' hid' hb'
    rfl
  | cons m l ih =>
    have hkeep : ∀ {α : Type} {name : Text} {a b : α}, (a = b ∨ ∃ m' ∈ m :: l, foldName m'.1 = name) →
        (if foldName m.1 = name then b else a) = b ∨ ∃ m' ∈ l, foldName m'.1 = name := by
      intro α name a b h
      by_cases hm : foldName m.1 = name
      · exact .inl (if_pos hm)
      · rw [if_neg hm]
        refine h.imp id ?_
        rintro ⟨m', hm', hname⟩
        rcases List.mem_cons.1 hm' with rfl | hm'
        · exact absurd hname hm
        · exact ⟨m', hm', hname⟩
    rw [List.forall_mem_cons] at hv hid hb
    rw [List.foldlM_cons, assign_member x hv.1 hid.1 hb.1]
    exact ih hv.2 hid.2 hb.2 (hkeep hv') (hkeep hid') (hkeep hb')

theorem Carries.unmarshal {l : List (Text × Json)} {x : Told} (hnd : (l.map Prod.fst).Nodup) (h : Carries (dictOf l) x)
    {data : Text} (hdata : loads data = some (.obj l)) :
    ExecEnvelope.unmarshal data = some ⟨1, x.executionId, base64 x.profile⟩ := by
  have hmem : ∀ {name : Text} {j : Json}, name ∈ bridgeNames → (dictOf l).get? name = some j →
      (∀ m ∈ l, foldName m.1 = name → m.2 = j) ∧ ∃ m ∈ l, foldName m.1 = name := by
    intro name j hname hget
    have hin := (get?_dictOf_eq_some hnd).1 hget
    refine ⟨fun m hm hfold => ?_, (name, j), hin, foldName_of_mem hname⟩
    have hmget := (get?_dictOf_eq_some hnd).2 (show (m.1, m.2) ∈ l from hm)
    have hkey : m.1 ∈ (dictOf l).keys := by
      rw [PyDict.mem_keys, hmget]
      rfl
    rw [(h.foldName_eq hkey hname).1 hfold, hget] at hmget
    exact (Option.some.inj hmget).symm
  obtain ⟨hv, hv'⟩ := hmem (by simp [bridgeNames]) h.version
  obtain ⟨hid, hid'⟩ := hmem (by simp [bridgeNames]) h.executionId
  obtain ⟨hb, hb'⟩ := hmem (by simp [bridgeNames]) h.profile
  rw [ExecEnvelope.unmarshal, hdata]
  exact assign_fold hv hid hb (.inr hv') (.inr hid') (.inr hb')

def withHeader (lead data rest : Text) : Text := lead ++ (PREFIX ++ ("b64:".toList ++ base64 data ++ '\n' :: rest))

theorem find_withHeader {lead : Text} (hlead : PyText.Before PREFIX lead) (data rest : Text) :
    PyText.find PREFIX (withHeader lead data rest) = some (lead, "b64:".toList ++ base64 data ++ '\n' :: rest) :=
  PyText.find_before hlead _

theorem parseExecEnvelope_withHeader {lead data : Text} {x : Told} {l : List (Text × Json)}
    (hlead : PyText.Before PREFIX lead) (hdata : loads data = some (.obj l)) (hnd : (l.map Prod.fst).Nodup)
    (h : Carries (dictOf l) x) (hid : validEnvelopeExecutionID x.executionId = true) (hprofile : x.profile ≠ [])
    (rest : Text) :
    parseExecEnvelope (withHeader lead data rest) = ⟨lead ++ rest, x.executionId, Utf8.encode x.profile, true⟩ := by
  have hbytes : Utf8.encode x.profile ≠ [] := by
    intro hnil
    exact hprofile (Utf8.encode_inj.1 (hnil.trans Utf8.encode_nil.symm))
  obtain ⟨b, bs, hb⟩ := List.exists_cons_of_ne_nil hbytes
  rw [parseExecEnvelope, find_withHeader hlead]
  simp only [cut_header, trimSpace_header, isPrefixOf?_header, decodeRaw_base64, Option.bind_some,
    Utf8.decodeLossy_encode, h.unmarshal hnd hdata]
  simp only [Option.filter_some, decide_true, if_true, hid, Bool.not_true, Bool.false_eq_true, if_false,
    if_neg (base64_ne_nil hprofile), decodeRaw_base64, hb]

theorem headerJson_withHeader {lead data : Text} (hlead : PyText.Before PREFIX lead) (rest : Text) :
    headerJson (withHeader lead data rest) = loads data := by
  rw [headerJson, find_withHeader hlead]
  simp only [Option.bind_some, cut_header, Option.map_some, Option.getD_some, isPrefixOf?_header, decodeRaw_base64,
    Utf8.decodeLossy_encode]

theorem envelopeField_withHeader {lead data : Text} {l : List (Text × Json)} (hlead : PyText.Before PREFIX lead)
    (hdata : loads data = some (.obj l)) (rest field : Text) :
    envelopeField (withHeader lead data rest) field = textOf ((dictOf l).get? field) := by
  rw [envelopeField, headerJson_withHeader hlead, hdata]

end Bridge

section Written

variable {N : Python}

theorem textOf_map {f : Json → Json} (hstr : ∀ s, f (.str s) = .str s) (hother : ∀ j s, f j = .str s → ∃ t, j = .str t)
    (o : Option Json) : textOf (o.map f) = textOf o := by
  cases o with
  | none => rfl
  | some j =>
    cases hj : f j with
    | str s =>
      obtain ⟨t, rfl⟩ := hother j s hj
      rw [Option.map_some, hstr]
    | _ =>
      rw [Option.map_some, hj]
      cases j with
      | str t => rw [hstr] at hj; cases hj
      | _ => rfl

theorem textOf_sortKeys (o : Option Json) : textOf (o.map sortKeys) = textOf o := by
  apply textOf_map
  · exact sortKeys_str
  · intro j s h
    cases j with
    | str t => exact ⟨t, rfl⟩
    | _ => simp [sortKeys] at h

theorem textOf_decoded (o : Option Json) : textOf (o.map (decoded N)) = textOf o := by
  apply textOf_map
  · exact fun s => rfl
  · intro j s h
    cases j with
    | str t => exact ⟨t, rfl⟩
    | _ => simp [decoded] at h

theorem Carries.bridge {d : Metadata} (x : Told) (hv : d.get? "v".toList = some (.num "1".toList))
    (hid : d.get? "execution_id".toList = some (.str x.executionId))
    (htool : textOf (d.get? "tool_name".toList) = x.toolName)
    (hreceipt : textOf (d.get? "prediction_receipt".toList) = x.receipt)
    (hnames : ∀ k ∈ d.keys, foldName k ∈ bridgeNames → k ∈ bridgeNames) : Carries (bridgeMetadata d x.profile) x where
  version := by rw [bridgeMetadata, PyDict.get?_set_ne _ _ (by decide), hv]
  executionId := by rw [bridgeMetadata, PyDict.get?_set_ne _ _ (by decide), hid]
  profile := PyDict.get?_set_self _ _ _
  toolName := by rw [bridgeMetadata, PyDict.get?_set_ne _ _ (by decide), htool]
  receipt := by rw [bridgeMetadata, PyDict.get?_set_ne _ _ (by decide), hreceipt]
  names k hk hfold := by
    rcases PyDict.mem_keys_set.1 hk with rfl | hk
    · simp [bridgeNames]
    · exact hnames k hk hfold

theorem Carries.sorted {d : Metadata} {x : Told} (h : Carries d x) {l : List (Text × Json)}
    (hget : ∀ k, (dictOf l).get? k = (d.get? k).map sortKeys) (hkeys : ∀ m ∈ l, m.1 ∈ d.keys) :
    Carries (dictOf l) x where
  version := by rw [hget, h.version]; simp [sortKeys]
  executionId := by rw [hget, h.executionId]; simp [sortKeys]
  profile := by rw [hget, h.profile]; simp [sortKeys]
  toolName := by rw [hget, textOf_sortKeys, h.toolName]
  receipt := by rw [hget, textOf_sortKeys, h.receipt]
  names k hk hfold := by
    obtain ⟨j, hj⟩ := Option.isSome_iff_exists.1 (PyDict.mem_keys.1 hk)
    exact h.names k (hkeys _ (mem_dictOf (PyDict.get?_eq_some.1 hj))) hfold

theorem Carries.decoded {l : List (Text × Json)} {x : Told} (hnd : (l.map Prod.fst).Nodup) (h : Carries (dictOf l) x) :
    Carries (dictOf (decodedMembers N l)) x where
  version := by rw [get?_decodedMembers N hnd, h.version]; rfl
  executionId := by rw [get?_decodedMembers N hnd, h.executionId]; rfl
  profile := by rw [get?_decodedMembers N hnd, h.profile]; rfl
  toolName := by rw [get?_decodedMembers N hnd, textOf_decoded, h.toolName]
  receipt := by rw [get?_decodedMembers N hnd, textOf_decoded, h.receipt]
  names k hk hfold := by
    refine h.names k ?_ hfold
    rw [PyDict.mem_keys, get?_decodedMembers N hnd, Option.isSome_map] at hk
    exact PyDict.mem_keys.2 hk

theorem Carries.progress {d : Metadata} {x : Told} (h : Carries d x) (progress : Json) :
    Carries (d.set "progress_control".toList progress) x where
  version := by rw [PyDict.get?_set_ne _ _ (by decide), h.version]
  executionId := by rw [PyDict.get?_set_ne _ _ (by decide), h.executionId]
  profile := by rw [PyDict.get?_set_ne _ _ (by decide), h.profile]
  toolName := by rw [PyDict.get?_set_ne _ _ (by decide), h.toolName]
  receipt := by rw [PyDict.get?_set_ne _ _ (by decide), h.receipt]
  names k hk hfold := by
    rcases PyDict.mem_keys_set.1 hk with rfl | hk
    · simp [bridgeNames]
    · exact h.names k hk hfold

/-- The header that the shim writes, as the bridge reads it. -/
theorem loads_bridge {d : Metadata} (hw : ∀ m ∈ d.entries, Writable N m.2) :
    loads (dumps asciiEscape (sortKeys (.obj d.entries))) = some (sortKeys (.obj d.entries)) :=
  loads_dumps asciiEscape_escapes (wellFormed_sortKeys _ (Writable.obj.2 hw).wellFormed)

end Written

section Plugin

variable {N : Python} {command executionId : Text} {decision : Option ToolDecision} {lattice : Bool}

def headerNames : List Text :=
  ["v".toList, "execution_id".toList, "tool_name".toList, "prediction_receipt".toList, "profile_command_b64".toList,
    "call_prediction".toList, "deferred_tool_timeout_seconds".toList]

theorem foldName_headerNames {k : Text} (h : k ∈ headerNames) : foldName k = k := by
  simp only [headerNames, List.mem_cons, List.not_mem_nil, or_false] at h
  rcases h with rfl | rfl | rfl | rfl | rfl | rfl | rfl <;> rfl

theorem nodup_members : ((sandboxExecMembers command executionId decision lattice).map Prod.fst).Nodup := by
  have hsub : ((sandboxExecMembers command executionId decision lattice).map Prod.fst).Sublist headerNames := by
    rw [sandboxExecMembers]
    cases (decision.bind (·.receipt)) with
    | none =>
      cases (decision.bind (·.model lattice)) with
      | none => exact .cons_cons _ (.cons_cons _ (.cons_cons _ (.cons _ (.cons_cons _ (List.nil_sublist _)))))
      | some p =>
        exact .cons_cons _ (.cons_cons _ (.cons_cons _ (.cons _ (.cons_cons _ (.cons_cons _ (List.nil_sublist _))))))
    | some r =>
      cases (decision.bind (·.model lattice)) with
      | none => exact .cons_cons _ (.cons_cons _ (.cons_cons _ (.cons_cons _ (.cons_cons _ (List.nil_sublist _)))))
      | some p =>
        exact .cons_cons _
          (.cons_cons _ (.cons_cons _ (.cons_cons _ (.cons_cons _ (.cons_cons _ (List.nil_sublist _))))))
  exact hsub.nodup (by decide)

theorem mem_members {m : Text × Json} (h : m ∈ sandboxExecMembers command executionId decision lattice) :
    m = ("v".toList, .num "1".toList) ∨ m = ("execution_id".toList, .str executionId) ∨
      m = ("tool_name".toList, .str ((decision.bind (·.toolName)).getD "exec".toList)) ∨
      (∃ r, decision.bind (·.receipt) = some r ∧ m = ("prediction_receipt".toList, .str r)) ∨
      m = ("profile_command_b64".toList, .str (base64 command)) ∨
      ∃ p, decision.bind (·.model lattice) = some p ∧ m = ("call_prediction".toList, p.json) := by
  simp only [sandboxExecMembers, List.mem_append, List.mem_cons, List.not_mem_nil, or_false, Option.mem_toList,
    Option.map_eq_some_iff] at h
  rcases h with (((rfl | rfl | rfl) | ⟨r, hr, rfl⟩) | rfl) | ⟨p, hp, rfl⟩
  · exact .inl rfl
  · exact .inr (.inl rfl)
  · exact .inr (.inr (.inl rfl))
  · exact .inr (.inr (.inr (.inl ⟨r, hr, rfl⟩)))
  · exact .inr (.inr (.inr (.inr (.inl rfl))))
  · exact .inr (.inr (.inr (.inr (.inr ⟨p, hp, rfl⟩))))

theorem writable_members (hprediction : ∀ p, decision.bind (·.model lattice) = some p → Writable N p.json) :
    ∀ m ∈ sandboxExecMembers command executionId decision lattice, Writable N m.2 := by
  intro m hm
  rcases mem_members hm with rfl | rfl | rfl | ⟨r, -, rfl⟩ | rfl | ⟨p, hp, rfl⟩
  · exact ⟨by decide, by decide, .inl (by decide)⟩
  · trivial
  · trivial
  · trivial
  · trivial
  · exact hprediction p hp

theorem members_headerNames {m : Text × Json} (h : m ∈ sandboxExecMembers command executionId decision lattice) :
    m.1 ∈ headerNames := by
  rcases mem_members h with rfl | rfl | rfl | ⟨r, -, rfl⟩ | rfl | ⟨p, -, rfl⟩ <;> simp [headerNames]

variable (N command executionId decision lattice) in
def pluginMetadata : Metadata := dictOf (decodedMembers N (sandboxExecMembers command executionId decision lattice))

theorem get?_pluginMetadata {k : Text} {j : Json}
    (h : (k, j) ∈ sandboxExecMembers command executionId decision lattice) :
    (pluginMetadata N command executionId decision lattice).get? k = some (decoded N j) := by
  rw [pluginMetadata, get?_decodedMembers N nodup_members, (get?_dictOf_eq_some nodup_members).2 h]
  rfl

theorem textOf_receipt :
    textOf ((pluginMetadata N command executionId decision lattice).get? "prediction_receipt".toList) =
    (decision.bind (·.receipt)).getD [] := by
  cases hr : decision.bind (·.receipt) with
  | some r =>
    have hmem : ("prediction_receipt".toList, Json.str r) ∈ sandboxExecMembers command executionId decision
        lattice := by
      simp [sandboxExecMembers, hr]
    rw [get?_pluginMetadata hmem]
    rfl
  | none =>
    have hnone : (dictOf (sandboxExecMembers command executionId decision lattice)).get? "prediction_receipt".toList =
        none := by
      rw [Option.eq_none_iff_forall_ne_some]
      intro j hj
      have hne : ∀ {k : Text} {j j' : Json}, ("prediction_receipt".toList, j) = (k, j') →
          k = "prediction_receipt".toList :=
        fun h => (Prod.mk.inj h).1.symm
      rcases mem_members ((get?_dictOf_eq_some nodup_members).1 hj) with h | h | h | ⟨r, hr', -⟩ | h | ⟨p, -, h⟩
      · exact absurd (hne h) (by decide)
      · exact absurd (hne h) (by decide)
      · exact absurd (hne h) (by decide)
      · rw [hr] at hr'
        cases hr'
      · exact absurd (hne h) (by decide)
      · exact absurd (hne h) (by decide)
    rw [pluginMetadata, get?_decodedMembers N nodup_members, hnone]
    rfl

theorem keys_pluginMetadata {k : Text} (h : k ∈ (pluginMetadata N command executionId decision lattice).keys) :
    k ∈ headerNames := by
  rw [pluginMetadata, PyDict.mem_keys, get?_decodedMembers N nodup_members, Option.isSome_map] at h
  obtain ⟨j, hj⟩ := Option.isSome_iff_exists.1 h
  exact members_headerNames ((get?_dictOf_eq_some nodup_members).1 hj)

theorem headerMetadata_plugin (hprediction : ∀ p, decision.bind (·.model lattice) = some p → Writable N p.json) :
    headerMetadata N
    ("b64:".toList ++ base64 (dumps rawEscape (.obj (sandboxExecMembers command executionId decision lattice)))) =
      some (.obj (pluginMetadata N command executionId decision lattice).entries) := by
  have hw : ∀ m ∈ sandboxExecMembers command executionId decision lattice, Writable N m.2 :=
    writable_members hprediction
  have hloads := loads_dumps rawEscape_escapes (Writable.obj.2 hw).wellFormed
  rw [headerMetadata, isPrefixOf?_header]
  simp only
  rw [b64urlDecode_base64, Option.bind_some, Utf8.decode_encode, Option.bind_some, jsonLoads, hloads, Option.map_some,
    decoded]
  rfl

structure Described (d : Metadata) (executionId toolName receipt : Text) (deadline : Option Json) : Prop where
  version : d.get? "v".toList = some (.num "1".toList)
  executionId : d.get? "execution_id".toList = some (.str executionId)
  toolName : d.get? "tool_name".toList = some (.str toolName)
  receipt : textOf (d.get? "prediction_receipt".toList) = receipt
  deadline : d.get? "deferred_tool_timeout_seconds".toList = deadline
  keys : ∀ k ∈ d.keys, k ∈ headerNames
  writable : ∀ m ∈ d.entries, Writable N m.2

theorem described_plugin (hN : N.Lawful)
    (hprediction : ∀ p, decision.bind (·.model lattice) = some p → Writable N p.json) {timeout : Option N.F}
    (hfinite : ∀ f, timeout = some f → N.finite f = true) :
    Described (N := N) (timedMetadata N (pluginMetadata N command executionId decision lattice) timeout) executionId
      ((decision.bind (·.toolName)).getD "exec".toList) ((decision.bind (·.receipt)).getD [])
      (timeout.map fun f => .num (N.repr f)) := by
  have hplain : Described (N := N) (pluginMetadata N command executionId decision lattice) executionId
      ((decision.bind (·.toolName)).getD "exec".toList) ((decision.bind (·.receipt)).getD []) none := by
    refine ⟨get?_pluginMetadata (j := .num "1".toList) (by simp [sandboxExecMembers]),
      get?_pluginMetadata (j := .str executionId) (by simp [sandboxExecMembers]),
      get?_pluginMetadata (j := .str _) (by simp [sandboxExecMembers]), textOf_receipt, ?_,
      fun k hk => keys_pluginMetadata hk, fun m hm => ?_⟩
    · rw [pluginMetadata, get?_decodedMembers N nodup_members, Option.map_eq_none_iff,
        Option.eq_none_iff_forall_ne_some]
      intro j hj
      have hne : ∀ {k : Text} {j j' : Json}, ("deferred_tool_timeout_seconds".toList, j) = (k, j') →
          k = "deferred_tool_timeout_seconds".toList := fun h => (Prod.mk.inj h).1.symm
      rcases mem_members ((get?_dictOf_eq_some nodup_members).1 hj) with h | h | h | ⟨r, -, h⟩ | h | ⟨p, -, h⟩ <;>
        exact absurd (hne h) (by decide)
    · rw [pluginMetadata] at hm
      exact WritableMembers.decoded hN (writableMembers_iff.2 (writable_members hprediction)) m (mem_dictOf hm)
  cases timeout with
  | none => exact hplain
  | some f =>
    obtain ⟨hv, hid, htool, hreceipt, -, hkeys, hwritable⟩ := hplain
    refine ⟨?_, ?_, ?_, ?_, PyDict.get?_set_self _ _ _, fun k hk => ?_, fun m hm => ?_⟩
    · rw [timedMetadata, PyDict.get?_set_ne _ _ (by decide), hv]
    · rw [timedMetadata, PyDict.get?_set_ne _ _ (by decide), hid]
    · rw [timedMetadata, PyDict.get?_set_ne _ _ (by decide), htool]
    · rw [timedMetadata, PyDict.get?_set_ne _ _ (by decide), hreceipt]
    · rcases PyDict.mem_keys_set.1 hk with rfl | hk
      · simp [headerNames]
      · exact hkeys k hk
    · have hget := PyDict.get?_eq_some.2 hm
      rw [timedMetadata, PyDict.get?_set] at hget
      split_ifs at hget with hkey
      · obtain ⟨hnum, hchars⟩ := hN.numeral_repr f (hfinite f rfl)
        rw [← Option.some.inj hget]
        exact ⟨hnum, hchars, .inr ⟨f, hN.float_repr f (hfinite f rfl), hfinite f rfl⟩⟩
      · exact hwritable _ (PyDict.get?_eq_some.1 hget)

theorem envelopeArgument_plugin (hprediction : ∀ p, decision.bind (·.model lattice) = some p → Writable N p.json)
    {before profile : Text} {timeout : Option N.F} {metadata : Metadata} {toolName receipt : Text}
    {deadline : Option Json} (hbefore : PyText.Before PREFIX before) (hcommand : command ≠ []) (hid : executionId ≠ [])
    (hsplit : splitDeferredTimeout N command = .ok (profile, timeout))
    (hmetadata : timedMetadata N (pluginMetadata N command executionId decision lattice) timeout = metadata)
    (hdescribed : Described (N := N) metadata executionId toolName receipt deadline) (post : Text) :
    envelopeArgument N (before ++ (sandboxExecHeader command executionId decision lattice ++ '\n' :: post)) =
      .ok (some (
        if toolName = "exec".toList then
          (⟨metadata, merged (collectorVisibleLauncher (before ++ post) executionId), profile⟩,
            merged (PREFIX ++ "b64:".toList ++ bridgeHeader metadata profile ++
              '\n' :: collectorVisibleLauncher (before ++ post) executionId))
        else
          (⟨metadata, collectorVisibleLauncher (before ++ post) executionId, profile⟩,
            PREFIX ++ "b64:".toList ++ bridgeHeader metadata profile ++
              '\n' :: collectorVisibleLauncher (before ++ post) executionId))) := by
  have hfind : PyText.find PREFIX (before ++ (sandboxExecHeader command executionId decision lattice ++ '\n' :: post)) =
      some (before,
        "b64:".toList ++ base64 (dumps rawEscape (.obj (sandboxExecMembers command executionId decision lattice))) ++
        '\n' :: post) := by
    rw [← PyText.find_before hbefore]
    simp only [sandboxExecHeader, List.append_assoc]
  have hv : (pluginMetadata N command executionId decision lattice).get? "v".toList = some (.num "1".toList) :=
    get?_pluginMetadata (j := .num "1".toList) (by simp [sandboxExecMembers])
  have hid' : (pluginMetadata N command executionId decision lattice).get? "execution_id".toList =
      some (.str executionId) :=
    get?_pluginMetadata (j := .str executionId) (by simp [sandboxExecMembers])
  have hprofile : profileOf (pluginMetadata N command executionId decision lattice) post = some command := by
    have hb : (pluginMetadata N command executionId decision lattice).get? "profile_command_b64".toList =
        some (.str (base64 command)) := get?_pluginMetadata (j := .str (base64 command)) (by simp [sandboxExecMembers])
    obtain ⟨c, s, hcs⟩ := List.exists_cons_of_ne_nil (base64_ne_nil hcommand)
    rw [profileOf, hb, hcs]
    simp only
    rw [← hcs, b64urlDecode_base64, Option.bind_some, Utf8.decode_encode]
  have hnotone : isOne N (some (.num "1".toList)) = true := rfl
  have htruthy : truthy N (some (.str executionId)) = true := by simp [truthy, hid]
  have hruns : runsExec metadata = decide (toolName = "exec".toList) := by rw [runsExec, hdescribed.toolName]
  have htext : idText N metadata = executionId := by rw [idText, hdescribed.executionId]
  rw [envelopeArgument, hfind]
  simp only [cut_header, headerMetadata_plugin hprediction, dictOf_entries, hv, hid', hnotone, htruthy, hprofile,
    hsplit, hmetadata, hruns, htext, Bool.not_true, Bool.or_self, Bool.false_eq_true, if_false, decide_eq_true_eq]
  split_ifs <;> rfl

end Plugin

section Progress

variable {N : Python} {go : Go}

def progressJson (url token seconds : Text) (request : List (Text × Json)) : Json :=
  .obj [("url".toList, .str url), ("token".toList, .str token), ("timeout_seconds".toList, .num seconds),
    ("request".toList, .obj request)]

theorem foldlM_assignProgress_other {l : List (Text × Json)} (o : Option (ProgressControl go))
    (h : ∀ m ∈ l, foldName m.1 ≠ "progress_control".toList) : l.foldlM (assignProgress go) o = some o := by
  induction l with
  | nil => rfl
  | cons m l ih =>
    rw [List.forall_mem_cons] at h
    rw [List.foldlM_cons, assignProgress, if_neg h.1]
    exact ih h.2

theorem foldlM_assignProgress {url token seconds : Text} {request : List (Text × Json)} {f : go.G}
    (hf : go.parseFloat seconds = some f) {l : List (Text × Json)} (hnd : (l.map Prod.fst).Nodup)
    (hname : ∀ m ∈ l, foldName m.1 = "progress_control".toList → m.1 = "progress_control".toList)
    (hmem : ("progress_control".toList, progressJson url token seconds request) ∈ l) :
    l.foldlM (assignProgress go) none = some (some ⟨url, token, some (dictOf request), some f⟩) := by
  obtain ⟨l₁, l₂, rfl⟩ := List.append_of_mem hmem
  rw [List.map_append, List.map_cons, List.nodup_append] at hnd
  have hother : ∀ m ∈ l₁ ++ l₂, foldName m.1 ≠ "progress_control".toList := by
    intro m hm hfold
    rcases List.mem_append.1 hm with hm | hm
    · have hkey := hname m (List.mem_append_left _ hm) hfold
      exact hnd.2.2 _ (List.mem_map_of_mem hm) _ List.mem_cons_self hkey
    · have hkey := hname m (List.mem_append_right _ (List.mem_cons_of_mem _ hm)) hfold
      have hin := List.mem_map_of_mem (f := Prod.fst) hm
      rw [hkey] at hin
      exact (List.nodup_cons.1 hnd.2.1).1 hin
  have hcontrol : assignProgress go none ("progress_control".toList, progressJson url token seconds request) =
      some (some ⟨url, token, some ((∅ : PyDict Text Json).update (dictOf request)), some f⟩) := by
    have hname' : foldName ("progress_control".toList, progressJson url token seconds request).1 =
        "progress_control".toList :=
      foldName_of_mem (by simp [bridgeNames])
    rw [assignProgress, if_pos hname', progressJson]
    simp only [Option.getD_none, List.foldlM_cons, List.foldlM_nil]
    have hurl : ProgressControl.assign ({} : ProgressControl go) ("url".toList, .str url) = some { url := url } := rfl
    have htoken : ProgressControl.assign ({ url := url } : ProgressControl go) ("token".toList, .str token) =
        some { url := url, token := token } := rfl
    have hseconds : ProgressControl.assign ({ url := url, token := token } : ProgressControl go)
        ("timeout_seconds".toList, .num seconds) = some { url := url, token := token, timeoutSeconds := some f } := by
      change (go.parseFloat seconds).map _ = _
      rw [hf]
      rfl
    rw [hurl]
    simp only [Option.bind_eq_bind, Option.bind_some]
    rw [htoken, Option.bind_some, hseconds]
    rfl
  have hupdate : (∅ : PyDict Text Json).update (dictOf request) = dictOf request := dictOf_entries _
  rw [List.foldlM_append, foldlM_assignProgress_other _ fun m hm => hother m (List.mem_append_left _ hm),
    Option.bind_eq_bind, Option.bind_some, List.foldlM_cons, hcontrol, Option.bind_eq_bind, Option.bind_some,
    foldlM_assignProgress_other _ fun m hm => hother m (List.mem_append_right _ hm), hupdate]

theorem insertProgress_withHeader {lead data : Text} {l : List (Text × Json)}
    (hlead : PyText.Before (PREFIX ++ "b64:".toList) lead) (hdata : loads data = some (.obj l)) (progress : Json)
    (rest : Text) (argv : List Text) :
    insertProgress N progress (withHeader lead data rest :: argv) = .ok (withHeader lead (dumpsSpaced asciiEscape
      (.obj ((dictOf (decodedMembers N l)).set "progress_control".toList progress).entries)) rest :: argv) := by
  have hfind : PyText.find (PREFIX ++ "b64:".toList) (withHeader lead data rest) =
      some (lead, base64 data ++ '\n' :: rest) := by
    rw [← PyText.find_before hlead]
    simp only [withHeader, List.append_assoc]
  have hcut : Fields.cut '\n' (base64 data ++ '\n' :: rest) = some (base64 data, rest) := by
    apply PyText.cut_append
    intro h
    exact absurd (mem_base64 h).1 (by decide)
  rw [insertProgress, hfind]
  simp only [hcut, b64urlDecode_base64, Option.bind_some, Utf8.decode_encode, jsonLoads, hdata, Option.map_some,
    decoded, dictOf_entries]
  simp only [withHeader, List.append_assoc]

theorem insertProgress_skip {pre : List Text} (hpre : ∀ a ∈ pre, PyText.find (PREFIX ++ "b64:".toList) a = none)
    {progress : Json} {argv argv' : List Text} (h : insertProgress N progress argv = .ok argv') :
    insertProgress N progress (pre ++ argv) = .ok (pre ++ argv') := by
  induction pre with
  | nil => exact h
  | cons a pre ih =>
    rw [List.forall_mem_cons] at hpre
    rw [List.cons_append, insertProgress, hpre.1, ih hpre.2]
    rfl

end Progress

section RoundTrip

variable {N : Python}

/-- What the bridge makes of an argument: it runs this command for the execution, and reports what it was told. -/
structure Agreed (argument command : Text) (x : Told) : Prop where
  parsed : parseExecEnvelope argument = ⟨command, x.executionId, Utf8.encode x.profile, true⟩
  toolName : envelopeField argument "tool_name".toList = x.toolName
  receipt : predictionReceipt argument = x.receipt

theorem agreed_withHeader {lead data : Text} {x : Told} {l : List (Text × Json)} (hlead : PyText.Before PREFIX lead)
    (hdata : loads data = some (.obj l)) (hnd : (l.map Prod.fst).Nodup) (h : Carries (dictOf l) x)
    (hid : validEnvelopeExecutionID x.executionId = true) (hprofile : x.profile ≠ []) (rest : Text) :
    Agreed (withHeader lead data rest) (lead ++ rest) x where
  parsed := parseExecEnvelope_withHeader hlead hdata hnd h hid hprofile rest
  toolName := by rw [envelopeField_withHeader hlead hdata, h.toolName]
  receipt := by rw [predictionReceipt, envelopeField_withHeader hlead hdata, h.receipt]

theorem agreed_bridge (hN : N.Lawful) {lead : Text} (hlead : lead = [] ∨ lead = "\x7b\n".toList) {d : Metadata}
    {x : Told} (h : Carries d x) (hw : ∀ m ∈ d.entries, Writable N m.2)
    (hid : validEnvelopeExecutionID x.executionId = true) (hprofile : x.profile ≠ []) (rest : Text) :
    Agreed (withHeader lead (dumps asciiEscape (sortKeys (.obj d.entries))) rest) (lead ++ rest) x ∧
      ∀ (go : Go) (url token seconds : Text) (request : List (Text × Json)) (f : go.G), Regular N seconds →
        WritableMembers N request → go.parseFloat seconds = some f → ∀ argv, ∃ argument,
          insertProgress N (progressJson url token seconds request)
            (withHeader lead (dumps asciiEscape (sortKeys (.obj d.entries))) rest :: argv) = .ok (argument :: argv) ∧
          Agreed argument (lead ++ rest) x ∧
          parseProgressControl go argument = some ⟨url, token, some (dictOf request), some f⟩ := by
  have hbefore : PyText.Before PREFIX lead ∧ PyText.Before (PREFIX ++ "b64:".toList) lead := by
    rcases hlead with rfl | rfl <;> exact ⟨rfl, rfl⟩
  obtain ⟨l, hsorted, hnd, hget, hkeys⟩ := sortKeys_entries d
  have hdata := loads_bridge hw
  rw [hsorted] at hdata ⊢
  have hcarries := h.sorted hget hkeys
  refine ⟨agreed_withHeader hbefore.1 hdata hnd hcarries hid hprofile rest, ?_⟩
  intro go url token seconds request f hseconds hrequest hf argv
  refine ⟨_, insertProgress_withHeader hbefore.2 hdata _ rest argv, ?_⟩
  have hprogress := (hcarries.decoded (N := N) hnd).progress (progressJson url token seconds request)
  generalize hd : (dictOf (decodedMembers N l)).set "progress_control".toList (progressJson url token seconds request) =
    d'
    at hprogress
  have hmember : d'.get? "progress_control".toList = some (progressJson url token seconds request) := by
    rw [← hd, PyDict.get?_set_self]
  have hwritable : ∀ m ∈ d'.entries, Writable N m.2 := by
    intro m hm
    have hget := PyDict.get?_eq_some.2 hm
    rw [← hd, PyDict.get?_set] at hget
    split_ifs at hget with hkey
    · rw [← Option.some.inj hget]
      exact ⟨trivial, trivial, hseconds, hrequest, trivial⟩
    · have hsource := Writable.sortKeys (Writable.obj.2 hw)
      rw [hsorted, Writable] at hsource
      exact WritableMembers.decoded hN hsource m (mem_dictOf (PyDict.get?_eq_some.1 hget))
  have hdata' := loads_dumpsSpaced asciiEscape_escapes (Writable.obj.2 hwritable).wellFormed
  have hprogress' : Carries (dictOf d'.entries) x := by rwa [dictOf_entries]
  refine ⟨agreed_withHeader hbefore.1 hdata' d'.nodup hprogress' hid hprofile rest, ?_⟩
  rw [parseProgressControl, headerJson_withHeader hbefore.1, hdata']
  simp only
  rw [foldlM_assignProgress hf d'.nodup ?_ (PyDict.get?_eq_some.1 hmember)]
  · rfl
  · intro m hm hfold
    have hkey : m.1 ∈ d'.keys := List.mem_map_of_mem hm
    exact (hprogress.foldName_eq hkey (by simp [bridgeNames])).1 hfold

theorem envelope_skip {pre : List Text} (hpre : ∀ a ∈ pre, PyText.find PREFIX a = none) {argument argument' : Text}
    {call : Call} (h : envelopeArgument N argument = .ok (some (call, argument'))) (suf : List Text) :
    envelope N (pre ++ argument :: suf) = .ok (some (call, pre ++ argument' :: suf)) := by
  induction pre with
  | nil => rw [List.nil_append, envelope, h]; rfl
  | cons a pre ih =>
    rw [List.forall_mem_cons] at hpre
    have ha : envelopeArgument N a = .ok none := by rw [envelopeArgument, hpre.1]
    rw [List.cons_append, envelope, ha]
    simp only
    rw [ih hpre.2]
    rfl

theorem unenveloped_agreed (hN : N.Lawful) {executionId command : Text}
    (hid : validEnvelopeExecutionID executionId = true) (hcommand : command ≠ []) :
    Agreed (unenveloped executionId command).2 command
      ⟨executionId, command, textOf ((unenveloped executionId command).1.metadata.get? "tool_name".toList), []⟩ := by
  generalize hmetadata : (unenveloped executionId command).1.metadata = metadata
  have hshape : (unenveloped executionId command).2 =
      withHeader [] (dumps asciiEscape (sortKeys (.obj (bridgeMetadata metadata command).entries))) command := by
    rw [← hmetadata]
    simp only [unenveloped, withHeader, bridgeHeader, List.append_assoc, List.nil_append]
  have hkeys : metadata.keys = ["v".toList, "execution_id".toList, "tool_name".toList, "execution_scope".toList,
      "runtime_trace_expected".toList] := by
    rw [← hmetadata]
    rfl
  have hvalues : ∀ m ∈ metadata.entries, m.2 = .num "1".toList ∨ (∃ s, m.2 = .str s) ∨ m.2 = .bool false := by
    rw [← hmetadata]
    intro m hm
    have hin := mem_dictOf hm
    simp only [List.mem_cons, List.not_mem_nil, or_false] at hin
    rcases hin with rfl | rfl | rfl | rfl | rfl
    · exact .inl rfl
    · exact .inr (.inl ⟨_, rfl⟩)
    · exact .inr (.inl ⟨_, rfl⟩)
    · exact .inr (.inl ⟨_, rfl⟩)
    · exact .inr (.inr rfl)
  have hcarries : Carries (bridgeMetadata metadata command)
      ⟨executionId, command, textOf (metadata.get? "tool_name".toList), []⟩ := by
    refine Carries.bridge ⟨executionId, command, _, []⟩ ?_ ?_ rfl ?_ ?_
    · rw [← hmetadata]
      rfl
    · rw [← hmetadata]
      rfl
    · rw [← hmetadata]
      rfl
    · intro k hk hfold
      rw [hkeys] at hk
      simp only [List.mem_cons, List.not_mem_nil, or_false] at hk
      rcases hk with rfl | rfl | rfl | rfl | rfl
      · simp [bridgeNames]
      · simp [bridgeNames]
      · exact absurd hfold (by decide)
      · exact absurd hfold (by decide)
      · exact absurd hfold (by decide)
  have hw : ∀ m ∈ (bridgeMetadata metadata command).entries, Writable N m.2 := by
    intro m hm
    have hget := PyDict.get?_eq_some.2 hm
    rw [bridgeMetadata, PyDict.get?_set] at hget
    split_ifs at hget with hkey
    · rw [← Option.some.inj hget]
      trivial
    · rcases hvalues _ (PyDict.get?_eq_some.1 hget) with hm | ⟨s, hm⟩ | hm
      · simp only at hm
        rw [hm]
        exact ⟨by decide, by decide, .inl (by decide)⟩
      · simp only at hm
        rw [hm]
        trivial
      · simp only at hm
        rw [hm]
        trivial
  rw [hshape]
  exact (agreed_bridge hN (.inl rfl) hcarries hw hid hcommand command).1

theorem hostProfileCommand_of_split {command profile : Text} {timeout : Option N.F}
    (h : splitDeferredTimeout N command = .ok (profile, timeout)) : hostProfileCommand N command = profile := by
  unfold splitDeferredTimeout at h
  unfold hostProfileCommand
  cases hmarker : DEFERRED_TIMEOUT_PREFIX.isPrefixOf? command with
  | none =>
    rw [hmarker] at h
    exact (Prod.mk.inj (Except.ok.inj h)).1
  | some behind =>
    rw [hmarker] at h
    simp only at h ⊢
    cases hcut : Fields.cut '\n' behind with
    | none =>
      rw [hcut] at h
      cases h
    | some p =>
      rw [hcut] at h
      simp only at h ⊢
      cases hfloat : N.float p.1 with
      | none =>
        rw [hfloat] at h
        cases h
      | some f =>
        rw [hfloat] at h
        simp only at h ⊢
        split_ifs at h ⊢ with hpositive
        · exact (Prod.mk.inj (Except.ok.inj h)).1
        · cases h

variable (N) in
/-- From the plugin over the shim to the bridge: the host predicts and the shim profiles the command without its
deadline, the bridge runs what the shim was admitted for and profiles what the shim profiled, under the execution, the
tool and the receipt of the plugin; and so with the control of the progress in the header. -/
def Delivered (command executionId profile : Text) (decision : Option ToolDecision) (timeout : Option N.F)
    (pre suf : List Text) (wrapped visible : Text) : Prop :=
  let toolName := (decision.bind (·.toolName)).getD "exec".toList
  let told : Told := ⟨executionId, profile, toolName, (decision.bind (·.receipt)).getD []⟩
  ∃ metadata guest argument,
    envelope N (pre ++ wrapped :: suf) = .ok (some (⟨metadata, guest, profile⟩, pre ++ argument :: suf)) ∧
    guest = (if toolName = "exec".toList then merged visible else visible) ∧ hostProfileCommand N command = profile ∧
    metadata.get? "execution_id".toList = some (.str executionId) ∧
    metadata.get? "deferred_tool_timeout_seconds".toList = timeout.map (fun f => .num (N.repr f)) ∧
    textOf (metadata.get? "prediction_receipt".toList) = told.receipt ∧
    Agreed argument guest told ∧
    ∀ (go : Go) (url token seconds : Text) (request : List (Text × Json)) (f : go.G), Regular N seconds →
      WritableMembers N request → go.parseFloat seconds = some f → ∃ argument',
        insertProgress N (progressJson url token seconds request) (pre ++ argument :: suf) =
        .ok (pre ++ argument' :: suf) ∧
        Agreed argument' guest told ∧
        parseProgressControl go argument' = some ⟨url, token, some (dictOf request), some f⟩

theorem delivered_wrapped (hN : N.Lawful) {command executionId profile before post : Text}
    {decision : Option ToolDecision} {lattice : Bool} {timeout : Option N.F} {pre : List Text}
    (hid : validEnvelopeExecutionID executionId = true)
    (hprediction : ∀ p, decision.bind (·.model lattice) = some p → Writable N p.json)
    (hsplit : splitDeferredTimeout N command = .ok (profile, timeout))
    (hfinite : ∀ f, timeout = some f → N.finite f = true) (hprofile : profile ≠ [])
    (hbefore : PyText.Before PREFIX before) (hpre : ∀ a ∈ pre, PyText.find PREFIX a = none) (suf : List Text) :
    Delivered N command executionId profile decision timeout pre suf
      (before ++ (sandboxExecHeader command executionId decision lattice ++ '\n' :: post))
      (collectorVisibleLauncher (before ++ post) executionId) := by
  unfold Delivered
  intro toolName told
  let visible := collectorVisibleLauncher (before ++ post) executionId
  have hcommand : command ≠ [] := by
    rintro rfl
    obtain ⟨rfl, -⟩ := Prod.mk.inj (Except.ok.inj hsplit)
    exact hprofile rfl
  have hid' : executionId ≠ [] := by
    rintro rfl
    cases hid
  obtain ⟨metadata, hmetadata⟩ : ∃ m, timedMetadata N (pluginMetadata N command executionId decision lattice) timeout =
    m :=
    ⟨_, rfl⟩
  have hdescribed : Described (N := N) metadata executionId toolName told.receipt
    (timeout.map fun f => .num (N.repr f)) := by
    rw [← hmetadata]
    exact described_plugin hN hprediction hfinite
  have hcarries : Carries (bridgeMetadata metadata profile) told := by
    refine Carries.bridge told hdescribed.version hdescribed.executionId ?_ hdescribed.receipt ?_
    · rw [hdescribed.toolName]
      rfl
    · intro k hk hfold
      rwa [foldName_headerNames (hdescribed.keys k hk)] at hfold
  have hw : ∀ m ∈ (bridgeMetadata metadata profile).entries, Writable N m.2 := by
    intro m hm
    have hget := PyDict.get?_eq_some.2 hm
    rw [bridgeMetadata, PyDict.get?_set] at hget
    split_ifs at hget with hkey
    · rw [← Option.some.inj hget]
      trivial
    · exact hdescribed.writable _ (PyDict.get?_eq_some.1 hget)
  have hargument := envelopeArgument_plugin hprediction hbefore hcommand hid' hsplit hmetadata hdescribed post
  have hskip : ∀ a ∈ pre, PyText.find (PREFIX ++ "b64:".toList) a = none :=
    fun a ha => PyText.find_none_longer (hpre a ha) _
  -- with the braces around it, or bare
  obtain ⟨lead, rest, hlead, hguest, harg⟩ : ∃ lead rest, (lead = [] ∨ lead = "\x7b\n".toList) ∧
      lead ++ rest = (if toolName = "exec".toList then merged visible else visible) ∧
      envelopeArgument N (before ++ (sandboxExecHeader command executionId decision lattice ++ '\n' :: post)) =
        .ok (some (⟨metadata, lead ++ rest, profile⟩,
          withHeader lead (dumps asciiEscape (sortKeys (.obj (bridgeMetadata metadata profile).entries))) rest)) := by
    by_cases hexec : toolName = "exec".toList
    · refine ⟨"\x7b\n".toList, visible ++ "\n\x7d 2>&1".toList, .inr rfl, ?_, ?_⟩
      · rw [if_pos hexec, merged, List.append_assoc]
      · rw [hargument, if_pos hexec]
        simp only [merged, withHeader, bridgeHeader, List.append_assoc, List.cons_append, visible]
    · refine ⟨[], visible, .inl rfl, ?_, ?_⟩
      · rw [if_neg hexec, List.nil_append]
      · rw [hargument, if_neg hexec]
        simp only [withHeader, bridgeHeader, List.append_assoc, List.nil_append, visible]
  obtain ⟨hagreed, hprogress⟩ := agreed_bridge hN hlead hcarries hw hid hprofile rest
  refine ⟨metadata, lead ++ rest, _, envelope_skip hpre harg suf, hguest, hostProfileCommand_of_split hsplit,
    hdescribed.executionId, hdescribed.deadline, hdescribed.receipt, hagreed, ?_⟩
  intro go url token seconds request f hseconds hrequest hf
  obtain ⟨argument', hinsert, hagreed', hcontrol⟩ := hprogress go url token seconds request f hseconds hrequest hf suf
  exact ⟨argument', insertProgress_skip hskip hinsert, hagreed', hcontrol⟩

/-- The envelope in whatever launcher stands around it, the bare envelope of the plugin, and the one that the shim
itself puts before a command that came without: the bridge reads each of them as it was meant. -/
theorem envelope_round_trip (hN : N.Lawful) {command executionId profile before post : Text}
    {decision : Option ToolDecision} {lattice : Bool} {timeout : Option N.F} {pre : List Text}
    (hid : validEnvelopeExecutionID executionId = true)
    (hprediction : ∀ p, decision.bind (·.model lattice) = some p → Writable N p.json)
    (hsplit : splitDeferredTimeout N command = .ok (profile, timeout))
    (hfinite : ∀ f, timeout = some f → N.finite f = true) (hprofile : profile ≠ [])
    (hbefore : PyText.Before PREFIX before) (hpre : ∀ a ∈ pre, PyText.find PREFIX a = none) (suf : List Text) :
    Delivered N command executionId profile decision timeout pre suf
        (before ++ (sandboxExecHeader command executionId decision lattice ++ '\n' :: post))
        (collectorVisibleLauncher (before ++ post) executionId) ∧
      Delivered N command executionId profile decision timeout pre suf
        (buildSandboxExecEnvelope command executionId decision lattice) (collectorVisibleLauncher command executionId) ∧
      ∀ plain ≠ [], Agreed (unenveloped executionId plain).2 plain
        ⟨executionId, plain, textOf ((unenveloped executionId plain).1.metadata.get? "tool_name".toList), []⟩ := by
  refine ⟨?_, ?_, fun plain hplain => unenveloped_agreed hN hid hplain⟩
  · exact delivered_wrapped hN hid hprediction hsplit hfinite hprofile hbefore hpre suf
  · have hbare : PyText.Before PREFIX [] := rfl
    exact delivered_wrapped hN hid hprediction hsplit hfinite hprofile hbare hpre suf

def digitFloat : Text → Option (Fin 10)
  | [d] => if d.isDigit then some (Fin.ofNat 10 (d.toNat - 48)) else none
  | [d, '.', '0'] => if d.isDigit then some (Fin.ofNat 10 (d.toNat - 48)) else none
  | _ => none

def digitPython : Python where
  F := Fin 10
  float := digitFloat
  finite _ := true
  positive f := f ≠ 0
  zero f := f = 0
  one f := f = 1
  repr f := [Nat.digitChar f, '.', '0']
  str _ := []

theorem lawful_digitPython : digitPython.Lawful := by
  have hnumeral : ∀ f : Fin 10, numeral [Nat.digitChar f, '.', '0'] = true ∧
      [Nat.digitChar f, '.', '0'].all numberChar = true := by
    decide
  have hfloat : ∀ f : Fin 10, digitFloat [Nat.digitChar f, '.', '0'] = some f := by decide
  exact ⟨fun f _ => hnumeral f, fun f _ => hfloat f⟩

theorem envelope_round_trip_launcher :
    ∃ metadata guest argument, envelope digitPython ["-F".toList, "env A=1 sh -c \x27".toList ++
        (sandboxExecHeader (DEFERRED_TIMEOUT_PREFIX ++ "5\nls".toList) "exec-1".toList
          (some ⟨none, none, none, none, some "r".toList⟩) false ++ '\n' :: "ls\x27".toList)] =
        .ok (some (⟨metadata, guest, "ls".toList⟩, ["-F".toList, argument])) ∧
      metadata.get? "deferred_tool_timeout_seconds".toList = some (.num "5.0".toList) ∧
      Agreed argument guest ⟨"exec-1".toList, "ls".toList, "exec".toList, "r".toList⟩ := by
  obtain ⟨⟨metadata, guest, argument, henvelope, -, -, -, hdeadline, -, hagreed, -⟩, -, -⟩ :=
    @envelope_round_trip digitPython lawful_digitPython (DEFERRED_TIMEOUT_PREFIX ++ "5\nls".toList) "exec-1".toList
      "ls".toList
      "env A=1 sh -c \x27".toList "ls\x27".toList (some ⟨none, none, none, none, some "r".toList⟩) false
      (some (5 : Fin 10))
      ["-F".toList] (by decide) (fun p hp => by cases hp) rfl (fun f _ => rfl) (by decide) rfl (by decide) []
  exact ⟨metadata, guest, argument, henvelope, hdeadline, hagreed⟩

end RoundTrip

end ClawBox.PolicySsh
