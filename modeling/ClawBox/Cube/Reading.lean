import ClawBox.Cube.Journal

namespace ClawBox.Cube

open JsonText

theorem members_wellFormed (e : Entry) : wellFormedMembers e.members = true := rfl

theorem json_wellFormed (e : Entry) : wellFormed e.json = true := rfl

theorem loads_body (e : Entry) : loads e.body = some e.json := loads_dumps asciiEscape_escapes (json_wellFormed e)

/-- What appends have left behind the last line end: parts of bodies, one behind the other. -/
inductive Remains : Text → Prop
  | nil : Remains []
  | cons {e : Entry} {p q r : Text} (h : e.body = p ++ q) (hp : p ≠ []) (hr : Remains r) : Remains (p ++ r)

theorem cut_members (e : Entry) {r : Text} (hr : Restart r) : ∀ m ∈ e.members, Cut asciiEscape r m.2 := by
  have hstr := fun s => cut_str asciiEscape_escapes asciiEscape_brittle hr s
  intro m hm
  simp only [Entry.members, List.mem_cons, List.not_mem_nil, or_false] at hm
  rcases hm with rfl | rfl | rfl
  · exact hstr _
  · refine cut_obj asciiEscape_escapes asciiEscape_brittle hr rfl ?_ (by simp)
    intro m hm
    simp only [List.mem_cons, List.not_mem_nil, or_false] at hm
    rcases hm with rfl | rfl | rfl | rfl | rfl | rfl <;> exact hstr _
  · exact hstr _

theorem Remains.restart {r : Text} (h : Remains r) : Restart r := by
  induction h with
  | nil => exact restart_nil
  | @cons e p q r hbody hp hr ih =>
    refine ih.append asciiEscape_escapes asciiEscape_brittle (members_wellFormed e) (cut_members e ih)
      (by simp [Entry.members]) ?_
      hbody hp
    intro c x hc
    obtain ⟨rfl, -⟩ := List.cons.inj hc
    decide

theorem Remains.loads_eq {r : Text} (h : Remains r) : r = [] ∨ (∃ e : Entry, r = e.body) ∨ loads r = none := by
  cases h with
  | nil => exact .inl rfl
  | @cons e p q r hbody hp hr =>
    have hrestart := hr.restart
    right
    by_cases hq : q = []
    · subst hq
      rw [List.append_nil] at hbody
      subst hbody
      by_cases hr' : r = []
      · subst hr'
        exact .inl ⟨e, by rw [List.append_nil]⟩
      · right
        obtain ⟨x, rfl⟩ := hrestart.first.resolve_left hr'
        have hvalue := value_dumps asciiEscape_escapes e.json (json_wellFormed e)
          (f := 2 * (e.body ++ '{' :: x).length + 2) (by
            rw [List.length_append]
            unfold Entry.body
            omega) hrestart.ends
        unfold loads
        rw [Entry.body] at hvalue ⊢
        rw [hvalue]
        rfl
    · right
      have hvalue := value_cut asciiEscape_escapes asciiEscape_brittle hrestart (members_wellFormed e)
        (cut_members e hrestart) (by simp [Entry.members]) hbody hp hq (2 * (p ++ r).length + 2)
      unfold loads
      rw [hvalue]

theorem Remains.append {r p q : Text} (h : Remains r) {e : Entry} (hbody : e.body = p ++ q) : Remains (r ++ p) := by
  induction h with
  | nil =>
    cases p with
    | nil => exact .nil
    | cons c p =>
      have hone := Remains.cons hbody (by simp) .nil
      rwa [List.append_nil] at hone
  | cons hbody' hp' hr ih =>
    rw [List.append_assoc]
    exact .cons hbody' hp' ih

def NoBreaks (l : Text) : Prop := ∀ c ∈ l, isLineBreak c = false

theorem body_noBreaks (e : Entry) : NoBreaks e.body := by
  intro c hc
  have hprintable := List.all_eq_true.mp (printable_dumps e.json (json_wellFormed e)) c hc
  simp only [printable, Bool.and_eq_true, decide_eq_true_eq] at hprintable
  by_contra hbreak
  simp only [isLineBreak, Bool.not_eq_false, Bool.or_eq_true, decide_eq_true_eq] at hbreak
  rcases hbreak with ((((((((rfl | rfl) | rfl) | rfl) | rfl) | rfl) | rfl) | rfl) | rfl) | rfl <;>
    exact absurd hprintable (by decide)

theorem Remains.noBreaks {r : Text} (h : Remains r) : NoBreaks r := by
  induction h with
  | nil => exact nofun
  | @cons e p q r hbody hp hr ih =>
    intro c hc
    rcases List.mem_append.mp hc with hc | hc
    · exact body_noBreaks e c (by rw [hbody]; exact List.mem_append_left _ hc)
    · exact ih c hc

theorem splitlines_line {l : Text} (h : NoBreaks l) (r : Text) : splitlines (l ++ '\n' :: r) = l :: splitlines r := by
  induction l with
  | nil => rfl
  | cons c l ih =>
    have hc := h c List.mem_cons_self
    have hne : c ≠ '\r' := by
      rintro rfl
      exact absurd hc (by decide)
    rw [List.cons_append, splitlines, hc, ih fun c hc => h c (List.mem_cons_of_mem _ hc)]
    · rfl
    · intro r' hcr
      exact absurd hcr hne

theorem splitlines_rest {l : Text} (h : NoBreaks l) (hl : l ≠ []) : splitlines l = [l] := by
  induction l with
  | nil => exact absurd rfl hl
  | cons c l ih =>
    have hc := h c List.mem_cons_self
    have hne : c ≠ '\r' := by
      rintro rfl
      exact absurd hc (by decide)
    rw [splitlines, hc]
    · cases l with
      | nil => rfl
      | cons d l =>
        rw [ih (fun c hc => h c (List.mem_cons_of_mem _ hc)) (by simp)]
        rfl
    · intro r' hcr
      exact absurd hcr hne

theorem splitlines_lines {lines : List Text} (h : ∀ l ∈ lines, NoBreaks l) (r : Text) :
    splitlines (lines.flatMap (fun l => l ++ ['\n']) ++ r) = lines ++ splitlines r := by
  induction lines with
  | nil => rfl
  | cons l lines ih =>
    rw [List.flatMap_cons, List.append_assoc, List.append_assoc, List.singleton_append,
      splitlines_line (h l List.mem_cons_self), ih fun l' hl' => h l' (List.mem_cons_of_mem _ hl')]
    rfl

structure Journalled (acked : List Entry) (file : Text) : Prop where
  shape : ∃ (lines : List Text) (tail : Text), file = lines.flatMap (fun l => l ++ ['\n']) ++ tail ∧
    (∀ l ∈ lines, Remains l) ∧
    Remains tail ∧ ∀ e ∈ acked, e.body ∈ lines

def AtLineStart (file : Text) : Prop := file = [] ∨ file.getLast? = some '\n'

instance (file : Text) : Decidable (AtLineStart file) := inferInstanceAs (Decidable (_ ∨ _))

theorem journalled_nil : Journalled [] [] := ⟨[], [], rfl, nofun, .nil, nofun⟩

theorem Remains.eq_nil_of_atLineStart {tail : Text} (h : Remains tail) {front : Text}
    (hs : AtLineStart (front ++ tail)) : tail = [] := by
  by_contra hne
  obtain ⟨l, c, rfl⟩ := (List.eq_nil_or_concat tail).resolve_left hne
  rw [List.concat_eq_append] at h hs
  rcases hs with hs | hs
  · simp at hs
  · rw [← List.append_assoc, List.getLast?_append] at hs
    obtain rfl : c = '\n' := by simpa using hs
    exact absurd (h.noBreaks '\n' (by simp)) (by decide)

theorem Journalled.line {acked : List Entry} {lines : List Text} {tail : Text} (hlines : ∀ l ∈ lines, Remains l)
    (htail : Remains tail) (hacked : ∀ e ∈ acked, e.body ∈ lines) (e : Entry) :
    Journalled acked (lines.flatMap (fun l => l ++ ['\n']) ++ tail ++ e.line) ∧
      (tail = [] → Journalled (acked ++ [e]) (lines.flatMap (fun l => l ++ ['\n']) ++ tail ++ e.line)) := by
  have hwhole : Remains (tail ++ e.body) := htail.append (q := []) (by rw [List.append_nil])
  have hshape : lines.flatMap (fun l => l ++ ['\n']) ++ tail ++ e.line =
      (lines ++ [tail ++ e.body]).flatMap (fun l => l ++ ['\n']) ++ [] := by
    simp [Entry.line]
  have hall : ∀ l ∈ lines ++ [tail ++ e.body], Remains l := by
    intro l hl
    rcases List.mem_append.mp hl with hl | hl
    · exact hlines l hl
    · rw [List.mem_singleton.mp hl]
      exact hwhole
  refine ⟨⟨_, [], hshape, hall, .nil, fun e' he' => List.mem_append_left _ (hacked e' he')⟩, ?_⟩
  intro hnil
  refine ⟨_, [], hshape, hall, .nil, ?_⟩
  intro e' he'
  rcases List.mem_append.mp he' with he' | he'
  · exact List.mem_append_left _ (hacked e' he')
  · rw [List.mem_singleton.mp he', hnil]
    simp

theorem Journalled.part {acked : List Entry} {file : Text} (h : Journalled acked file) (e : Entry) (written : ℕ) :
    Journalled acked (file ++ e.line.take written) := by
  obtain ⟨lines, tail, rfl, hlines, htail, hacked⟩ := h.shape
  by_cases hwhole : e.line.length ≤ written
  · rw [List.take_of_length_le hwhole]
    exact (Journalled.line hlines htail hacked e).1
  · have hlen : written ≤ e.body.length := by
      rw [Entry.line, List.length_append, List.length_singleton] at hwhole
      omega
    have htake : e.line.take written = e.body.take written := List.take_append_of_le_length hlen
    refine ⟨lines, tail ++ e.body.take written, ?_, hlines, htail.append (List.take_append_drop written e.body).symm,
      hacked⟩
    rw [htake, List.append_assoc]

theorem Journalled.acknowledged {acked : List Entry} {file : Text} (h : Journalled acked file) (e : Entry)
    (hstart : AtLineStart file) : Journalled (acked ++ [e]) (file ++ e.line) := by
  obtain ⟨lines, tail, rfl, hlines, htail, hacked⟩ := h.shape
  exact (Journalled.line hlines htail hacked e).2 (htail.eq_nil_of_atLineStart hstart)

theorem Journalled.record {acked : List Entry} {file file' : Text} (h : Journalled acked file) {e : Entry} {written : ℕ}
    {ending : Ending} (hrecord : record e written ending file = some file')
    (hstart : ending = .returned → AtLineStart file) :
    Journalled (if ending = .returned then acked ++ [e] else acked) file' := by
  cases ending with
  | returned =>
    rw [Cube.record] at hrecord
    split_ifs at hrecord
    obtain rfl := Option.some.inj hrecord
    exact h.acknowledged e (hstart rfl)
  | raised | killed =>
    obtain rfl := Option.some.inj hrecord
    exact h.part e written

section Ids

variable {show' : Json → Text}

theorem readLine_remains {l : Text} (h : Remains l) (field : Text) (taskUid : Option Text) :
    (∃ e : Entry, l = e.body) ∨ readLine show' field taskUid l = .skipped := by
  rcases h.loads_eq with rfl | ⟨e, rfl⟩ | hnone
  · exact .inr rfl
  · exact .inl ⟨e, rfl⟩
  · right
    rw [readLine, hnone]

theorem readLine_body (e : Entry) (taskUid : Option Text) :
    readLine show' e.kind.field taskUid e.body =
      if taskUid = none ∨ taskUid = some e.ownership.taskUid then .found e.id else .skipped := by
  have hid : lookup e.kind.field e.members = some (.str e.id) := by
    cases e with
    | mk kind id ownership => cases kind <;> rfl
  have howner : lookup "ownership".toList e.members = some e.ownership.json := by
    cases e with
    | mk kind id ownership => cases kind <;> rfl
  rw [readLine, loads_body, Entry.json]
  simp only [hid, howner]
  cases taskUid with
  | none => rfl
  | some uid =>
    have howned : ownedBy e.ownership.json uid = some (decide (e.ownership.taskUid = uid)) := rfl
    simp only [Option.getD_some, howned]
    by_cases h : e.ownership.taskUid = uid
    · simp [h, str]
    · simp [h, Ne.symm h]

theorem readLine_other (e : Entry) {kind : Kind} (hkind : kind ≠ e.kind) (taskUid : Option Text) :
    readLine show' kind.field taskUid e.body = .skipped := by
  have hid : lookup kind.field e.members = none := by
    cases e with
    | mk kind' id ownership => cases kind <;> cases kind' <;> first | rfl | exact absurd rfl hkind
  rw [readLine, loads_body, Entry.json]
  simp only [hid]

theorem readLine_spec {l : Text} (h : Remains l) (kind : Kind) (taskUid : Option Text) :
    readLine show' kind.field taskUid l = .skipped ∨ ∃ id, readLine show' kind.field taskUid l = .found id := by
  rcases readLine_remains h kind.field taskUid with ⟨e, rfl⟩ | hskip
  · by_cases hkind : kind = e.kind
    · subst hkind
      rw [readLine_body]
      split_ifs
      · exact .inr ⟨e.id, rfl⟩
      · exact .inl rfl
    · exact .inl (readLine_other e hkind taskUid)
  · exact .inl hskip

theorem collect_spec {rows : List Row} (h : ∀ row ∈ rows, row = .skipped ∨ ∃ id, row = .found id) (seen : List Text) :
    ∃ found, collect seen rows = some found ∧ seen ⊆ found ∧ ∀ id, .found id ∈ rows → id ∈ found := by
  induction rows generalizing seen with
  | nil => exact ⟨seen, rfl, fun _ h => h, nofun⟩
  | cons row rows ih =>
    have hrest := ih fun row' hrow' => h row' (List.mem_cons_of_mem _ hrow')
    rcases h row List.mem_cons_self with rfl | ⟨id, rfl⟩
    · obtain ⟨found, hcollect, hseen, hfound⟩ := hrest seen
      refine ⟨found, hcollect, hseen, ?_⟩
      intro id hid
      exact hfound id (by simpa using hid)
    · by_cases hmem : id ∈ seen
      · obtain ⟨found, hcollect, hseen, hfound⟩ := hrest seen
        refine ⟨found, by rw [collect, if_pos hmem, hcollect], hseen, ?_⟩
        intro id' hid'
        rcases List.mem_cons.mp hid' with heq | hid'
        · rw [Row.found.inj heq]
          exact hseen hmem
        · exact hfound id' hid'
      · obtain ⟨found, hcollect, hseen, hfound⟩ := hrest (seen ++ [id])
        refine ⟨found, by rw [collect, if_neg hmem, hcollect], fun x hx => hseen (List.mem_append_left _ hx), ?_⟩
        intro id' hid'
        rcases List.mem_cons.mp hid' with heq | hid'
        · rw [Row.found.inj heq]
          exact hseen (by simp)
        · exact hfound id' hid'

theorem Journalled.found {acked : List Entry} {file : Text} (h : Journalled acked file) (kind : Kind)
    (taskUid : Option Text) :
    ∃ found, ids show' kind.field taskUid file = some found ∧
      ∀ e ∈ acked, e.kind = kind → (taskUid = none ∨ taskUid = some e.ownership.taskUid) → e.id ∈ found := by
  obtain ⟨lines, tail, rfl, hlines, htail, hacked⟩ := h.shape
  have hsplit : splitlines (lines.flatMap (fun l => l ++ ['\n']) ++ tail) = lines ++ splitlines tail :=
    splitlines_lines (fun l hl => (hlines l hl).noBreaks) tail
  have hrest : ∀ l ∈ splitlines tail, Remains l := by
    intro l hl
    by_cases htail' : tail = []
    · subst htail'
      cases hl
    · rw [splitlines_rest htail.noBreaks htail', List.mem_singleton] at hl
      rw [hl]
      exact htail
  obtain ⟨found, hcollect, -, hfound⟩ := collect_spec
    (fun row (hrow : row ∈ (lines ++ splitlines tail).map (readLine show' kind.field taskUid)) => by
      obtain ⟨l, hl, rfl⟩ := List.mem_map.mp hrow
      rcases List.mem_append.mp hl with hl | hl
      · exact readLine_spec (hlines l hl) kind taskUid
      · exact readLine_spec (hrest l hl) kind taskUid) []
  refine ⟨found, by rw [ids, hsplit, hcollect], ?_⟩
  rintro e he rfl hown
  apply hfound
  refine List.mem_map.mpr ⟨e.body, List.mem_append_left _ (hacked e he), ?_⟩
  rw [readLine_body, if_pos hown]

end Ids

end ClawBox.Cube
