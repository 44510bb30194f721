import ClawBox.Lib.JsonSorted
import ClawBox.Lib.PyDict

namespace JsonText

section SortedOnce

instance : Std.Total (fun a b : List Char × Json => keyLe a b = true) :=
  ⟨fun a b => by simpa [keyLe] using le_total a.1 b.1⟩

instance : IsTrans (List Char × Json) fun a b => keyLe a b = true :=
  ⟨fun a b c hab hbc => by
    simp only [keyLe, decide_eq_true_eq] at *
    exact hab.trans hbc⟩

theorem insertionSort_sortMembers (l : List (List Char × Json)) :
    (sortMembers l).insertionSort (fun a b => keyLe a b = true) =
      sortMembers (l.insertionSort fun a b => keyLe a b = true) := by
  rw [sortMembers_eq, sortMembers_eq]
  exact (List.map_insertionSort (r := fun a b => keyLe a b = true) (s := fun a b => keyLe a b = true)
    (fun m => (m.1, sortKeys m.2)) l fun _ _ _ _ => Iff.rfl).symm

mutual

theorem sortKeys_sortKeys (j : Json) : sortKeys (sortKeys j) = sortKeys j := by
  cases j with
  | arr l => rw [sortKeys, sortKeys, sortItems_sortItems l]
  | obj l =>
    rw [sortKeys, sortKeys, ← insertionSort_sortMembers, sortMembers_sortMembers l]
    congr 1
    exact (List.pairwise_insertionSort _ _).insertionSort_eq
  | null => simp [sortKeys]
  | bool b => simp [sortKeys]
  | num t => simp
  | str s => simp

theorem sortItems_sortItems (l : List Json) : sortItems (sortItems l) = sortItems l := by
  cases l with
  | nil => rfl
  | cons j js => rw [sortItems, sortItems, sortKeys_sortKeys j, sortItems_sortItems js]

theorem sortMembers_sortMembers (l : List (List Char × Json)) : sortMembers (sortMembers l) = sortMembers l := by
  match l with
  | [] => rfl
  | (k, j) :: l => rw [sortMembers, sortMembers, sortKeys_sortKeys j, sortMembers_sortMembers l]

end

end SortedOnce

section Visible

def visible (c : Char) : Bool := 32 ≤ c.toNat

theorem visible_of_printable {s : List Char} (h : s.all printable = true) : s.all visible = true := by
  rw [List.all_eq_true] at h ⊢
  intro c hc
  exact (Bool.and_eq_true_iff.1 (h c hc)).1

theorem visible_rawEscape (c : Char) : (rawEscape c).all visible = true := by
  unfold rawEscape
  cases hl : letter c with
  | some l =>
    have hprintable := printable_asciiEscape c
    rw [asciiEscape, hl] at hprintable
    exact visible_of_printable hprintable
  | none =>
    simp only
    split_ifs with hcontrol
    · exact visible_of_printable (printable_unit _)
    · simpa [visible] using hcontrol

theorem visible_quote (s : List Char) : (quote rawEscape s).all visible = true := by
  have hs : (s.flatMap rawEscape).all visible = true := by
    induction s with
    | nil => rfl
    | cons c s ih => rw [List.flatMap_cons, List.all_append, visible_rawEscape, ih]; rfl
  rw [quote, List.all_append, List.all_cons, hs]
  decide

mutual

theorem visible_dumps (j : Json) (hj : wellFormed j = true) : (dumps rawEscape j).all visible = true := by
  match j with
  | .null | .bool true | .bool false => decide
  | .num t =>
    rw [wellFormed, Bool.and_eq_true] at hj
    exact visible_of_printable (printable_number hj.2)
  | .str s => exact visible_quote s
  | .arr l =>
    rw [dumps, List.all_append, List.all_cons, visible_items l (by simpa [wellFormed] using hj)]
    decide
  | .obj l =>
    rw [dumps, List.all_append, List.all_cons, visible_members l (by simpa [wellFormed] using hj)]
    decide

theorem visible_items (l : List Json) (hl : wellFormedItems l = true) : (itemTexts rawEscape l).all visible = true := by
  match l with
  | [] => rfl
  | [j] =>
    rw [wellFormedItems, Bool.and_eq_true] at hl
    exact visible_dumps j hl.1
  | j :: j' :: js =>
    rw [wellFormedItems, Bool.and_eq_true] at hl
    simp only [itemTexts, List.all_append, List.all_cons, visible_dumps j hl.1, visible_items (j' :: js) hl.2]
    decide

theorem visible_members (l : List (List Char × Json)) (hl : wellFormedMembers l = true) :
    (memberTexts rawEscape l).all visible = true := by
  match l with
  | [] => rfl
  | [(k, j)] =>
    rw [wellFormedMembers, Bool.and_eq_true] at hl
    simp only [memberTexts, List.all_append, List.all_cons, visible_quote, visible_dumps j hl.1]
    decide
  | (k, j) :: m :: l =>
    rw [wellFormedMembers, Bool.and_eq_true] at hl
    simp only [memberTexts, List.all_append, List.all_cons, visible_quote, visible_dumps j hl.1,
      visible_members (m :: l) hl.2]
    decide

end

end Visible

@[ext]
structure Value where
  json : Json
  valid : wellFormed json = true
  sorted : sortKeys json = json

namespace Value

def text (v : Value) : List Char := dumps rawEscape v.json

def of (j : Json) (h : wellFormed j = true) : Value := ⟨sortKeys j, wellFormed_sortKeys j h, sortKeys_sortKeys j⟩

def read (s : List Char) : Option Value :=
  (loads s).bind fun j => if h : wellFormed j = true then some (of j h) else none

theorem newline_not_mem_text (v : Value) : '\n' ∉ v.text := by
  intro h
  have hvisible := List.all_eq_true.1 (visible_dumps v.json v.valid) _ h
  exact absurd hvisible (by decide)

theorem of_json (v : Value) : of v.json v.valid = v := Value.ext v.sorted

theorem read_text (v : Value) : read v.text = some v := by
  rw [read, text, loads_dumps rawEscape_escapes v.valid, Option.bind_some, dif_pos v.valid, of_json]

theorem read_line (v : Value) : read (v.text ++ ['\n']) = some v := by
  rw [read, text, loads_dumps_line rawEscape_escapes v.valid, Option.bind_some, dif_pos v.valid, of_json]

theorem text_inj {v w : Value} : v.text = w.text ↔ v = w := by
  constructor
  · intro h
    have hw := read_text w
    rw [← h, read_text] at hw
    exact Option.some.inj hw
  · rintro rfl
    rfl

instance : DecidableEq Value := fun _ _ => decidable_of_iff _ text_inj

def null : Value := ⟨.null, by rw [wellFormed]; all_goals simp, by rw [sortKeys]; all_goals simp⟩

def str (s : List Char) : Value := ⟨.str s, by rw [wellFormed]; all_goals simp, sortKeys_str s⟩

def num (n : ℕ) : Value := ⟨.num (PyText.digits n), wellFormed_digits n, sortKeys_num _⟩

def ofJson (j : Json) : Value := if h : wellFormed j = true then of j h else null

theorem ofJson_json (v : Value) : ofJson v.json = v := by
  rw [ofJson, dif_pos v.valid, of_json]

@[simp] theorem str_inj {s t : List Char} : str s = str t ↔ s = t := by
  constructor
  · intro h
    exact Json.str.inj (congrArg json h)
  · rintro rfl
    rfl

def str? (v : Value) : Option (List Char) :=
  match v.json with
  | .str s => some s
  | _ => none

@[simp] theorem str?_str (s : List Char) : (str s).str? = some s := rfl

theorem wellFormedItems_vals (l : List Value) : wellFormedItems (l.map (·.json)) = true := by
  induction l with
  | nil => rfl
  | cons v l ih => rw [List.map_cons, wellFormedItems, v.valid, ih]; rfl

theorem sortItems_vals (l : List Value) : sortItems (l.map (·.json)) = l.map (·.json) := by
  induction l with
  | nil => rfl
  | cons v l ih => rw [List.map_cons, sortItems, v.sorted, ih]

def arr (l : List Value) : Value := ⟨.arr (l.map (·.json)), by rw [wellFormed]; exact wellFormedItems_vals l, by
  rw [sortKeys, sortItems_vals]⟩

def items? (v : Value) : Option (List Value) :=
  match v.json with
  | .arr l => some (l.map ofJson)
  | _ => none

@[simp] theorem items?_arr (l : List Value) : (arr l).items? = some l := by
  have hback : (l.map (·.json)).map ofJson = l := by
    rw [List.map_map]
    exact (List.map_congr_left fun v _ => ofJson_json v).trans (List.map_id l)
  exact congrArg some hback

def vals (l : List (List Char × Value)) : List (List Char × Json) := l.map fun e => (e.1, e.2.json)

theorem wellFormed_vals (l : List (List Char × Value)) : wellFormed (.obj (vals l)) = true := by
  rw [wellFormed, wellFormedMembers_iff]
  intro m hm
  obtain ⟨e, -, rfl⟩ := List.mem_map.1 hm
  exact e.2.valid

theorem sortMembers_vals (l : List (List Char × Value)) : sortMembers (vals l) = vals l := by
  rw [sortMembers_eq, vals, List.map_map]
  refine List.map_congr_left fun e _ => ?_
  exact Prod.ext rfl e.2.sorted

def obj (d : PyDict (List Char) Value) : Value := of (.obj (vals d.entries)) (wellFormed_vals d.entries)

def members : Json → List (List Char × Json)
  | .obj l => l
  | _ => []

def dict (v : Value) : PyDict (List Char) Value :=
  ((members v.json).map fun m => (m.1, ofJson m.2)).foldl (fun d m => d.set m.1 m.2) ∅

theorem find?_perm {ν : Type*} {l l' : List (List Char × ν)} (hp : l.Perm l') (hnd : (l.map Prod.fst).Nodup)
    (k : List Char) :
    l.find? (·.1 = k) = l'.find? (·.1 = k) := by
  cases h : l.find? (·.1 = k) with
  | none =>
    rw [List.find?_eq_none] at h
    refine (List.find?_eq_none.2 fun m hm => h m (hp.mem_iff.2 hm)).symm
  | some m =>
    have hk : m.1 = k := by simpa using List.find?_some h
    have hm := hp.mem_iff.1 (List.mem_of_find?_eq_some h)
    rw [← hk, PyDict.find?_of_mem ((hp.map _).nodup_iff.1 hnd) hm]

theorem json_obj (d : PyDict (List Char) Value) :
    (obj d).json = .obj ((vals d.entries).insertionSort fun a b => keyLe a b = true) := by
  change sortKeys _ = _
  rw [sortKeys, sortMembers_vals]

theorem members_obj (d : PyDict (List Char) Value) : (members (obj d).json).Perm (vals d.entries) := by
  rw [json_obj]
  exact List.perm_insertionSort _ _

theorem get?_dict_obj (d : PyDict (List Char) Value) (k : List Char) : (obj d).dict.get? k = d.get? k := by
  have hback : (vals d.entries).map (fun m => (m.1, ofJson m.2)) = d.entries := by
    rw [vals, List.map_map]
    refine (List.map_congr_left fun e _ => ?_).trans (List.map_id _)
    exact Prod.ext rfl (ofJson_json e.2)
  have hp : ((members (obj d).json).map fun m => (m.1, ofJson m.2)).Perm d.entries :=
    ((members_obj d).map _).trans (.of_eq hback)
  have hnd := (hp.map Prod.fst).nodup_iff.2 d.nodup
  rw [dict, PyDict.get?_foldl_set hnd, find?_perm hp hnd, PyDict.get?_empty, Option.or_none]
  rfl

def get? (v : Value) (key : String) : Option Value := v.dict.get? key.toList

def set (v : Value) (key : String) (w : Value) : Value := obj (v.dict.set key.toList w)

def record (l : List (String × Value)) : Value :=
  obj (l.foldl (fun d m => d.set m.1.toList m.2) ∅)

theorem get?_set (v : Value) (k x : String) (w : Value) : (v.set k w).get? x = if x = k then some w else v.get? x := by
  rw [get?, set, get?_dict_obj, PyDict.get?_set]
  exact if_congr String.toList_inj rfl rfl

@[simp] theorem get?_set_self (v : Value) (k : String) (w : Value) : (v.set k w).get? k = some w := by
  rw [get?_set, if_pos rfl]

theorem get?_set_ne (v : Value) {k x : String} (h : x ≠ k) (w : Value) : (v.set k w).get? x = v.get? x := by
  rw [get?_set, if_neg h]

theorem get?_record {l : List (String × Value)} (hnd : (l.map Prod.fst).Nodup) (k : String) :
    (record l).get? k = (l.find? (·.1 = k)).map Prod.snd := by
  have hfold : l.foldl (fun (d : PyDict (List Char) Value) m => d.set m.1.toList m.2) ∅ =
      (l.map fun m => (m.1.toList, m.2)).foldl (fun d m => d.set m.1 m.2) ∅ := by
    rw [List.foldl_map]
  have hkeys : ((l.map fun m => (m.1.toList, m.2)).map Prod.fst).Nodup := by
    have htext : ((l.map Prod.fst).map String.toList).Nodup := hnd.map fun a b h => String.toList_inj.1 h
    rw [List.map_map] at htext ⊢
    exact htext
  rw [get?, record, get?_dict_obj, hfold, PyDict.get?_foldl_set hkeys, PyDict.get?_empty, Option.or_none,
    List.find?_map, Option.map_map]
  congr 1
  refine List.find?_congr fun m _ => ?_
  simp [String.toList_inj]

end Value

end JsonText
