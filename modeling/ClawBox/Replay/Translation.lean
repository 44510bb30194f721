import ClawBox.Replay.ProcessSessions
import Mathlib.Data.List.Find

namespace ClawBox.Replay

open JsonText Tokens Transition

section Bindings

variable {W : WordClass} {eq : Json → Json → Bool} {B B' : Bindings}

structure Proper (W : WordClass) (B : Bindings) : Prop where
  key : ∀ k b, B.get? k = some b → IsWord W.token k
  session : ∀ k b, B.get? k = some b → IsWord W.token b.sessionId
  pid : ∀ k b, B.get? k = some b → IsWord Char.isDigit b.pid
  injective : ∀ k b k' b', B.get? k = some b → B.get? k' = some b' → b.sessionId = b'.sessionId → k = k'

def Grows (B B' : Bindings) : Prop := ∀ k b, B.get? k = some b → B'.get? k = some b

theorem Proper.empty : Proper W ∅ := by
  constructor <;> simp

theorem search_eq {s x n : List Char} (h : search W s = some (x, n)) : IsWord W.token x ∧ IsWord Char.isDigit n := by
  induction s with
  | nil => cases h
  | cons c cs ih =>
    unfold search at h
    split at h
    · rename_i hr
      cases h
      exact (running_eq hr).2
    · exact ih h

theorem Proper.register (h : Proper W B) {old new : List Char × List Char} (ho : IsWord W.token old.1)
    (hn : IsWord W.token new.1) (hp : IsWord Char.isDigit new.2) (hr : register B old new = .ok B') :
    Proper W B' ∧ Grows B B' := by
  unfold Replay.register at hr
  dsimp only at hr
  split_ifs at hr with hchanged hshared
  cases hr
  have hold : ∀ b, B.get? old.1 = some b → b = ⟨new.1, new.2, old.2⟩ := by
    intro b hb
    by_contra hne
    exact hchanged (by simp [hb, hne])
  have hother : ∀ k b, k ≠ old.1 → B.get? k = some b → b.sessionId ≠ new.1 := by
    intro k b hk hb he
    refine hshared (List.any_eq_true.mpr ⟨(k, b), PyDict.get?_eq_some.mp hb, ?_⟩)
    simp [hk, he]
  have hget : ∀ {k b}, (B.set old.1 ⟨new.1, new.2, old.2⟩).get? k = some b →
      k = old.1 ∧ b = ⟨new.1, new.2, old.2⟩ ∨ k ≠ old.1 ∧ B.get? k = some b := by
    intro k b hb
    rw [PyDict.get?_set] at hb
    split_ifs at hb with hk
    · exact .inl ⟨hk, (Option.some.inj hb).symm⟩
    · exact .inr ⟨hk, hb⟩
  refine ⟨⟨fun k b hb => ?_, fun k b hb => ?_, fun k b hb => ?_, fun k b k' b' hb hb' he => ?_⟩, fun k b hb => ?_⟩
  · rcases hget hb with ⟨rfl, -⟩ | ⟨-, hb⟩
    · exact ho
    · exact h.key k b hb
  · rcases hget hb with ⟨-, rfl⟩ | ⟨-, hb⟩
    · exact hn
    · exact h.session k b hb
  · rcases hget hb with ⟨-, rfl⟩ | ⟨-, hb⟩
    · exact hp
    · exact h.pid k b hb
  · rcases hget hb with ⟨rfl, rfl⟩ | ⟨hk, hb⟩
    · rcases hget hb' with ⟨rfl, -⟩ | ⟨hk', hb'⟩
      · rfl
      · exact absurd he.symm (hother k' b' hk' hb')
    · rcases hget hb' with ⟨rfl, rfl⟩ | ⟨-, hb'⟩
      · exact absurd he (hother k b hk hb)
      · exact h.injective k b k' b' hb hb' he
  · rw [PyDict.get?_set]
    split_ifs with hk
    · rw [hold b (hk ▸ hb)]
    · exact hb

theorem Proper.bindMessage (h : Proper W B) {observed : List (Json × List (List Char × Json))} {message : Json}
    (hr : bindMessage W eq observed B message = .ok B') : Proper W B' ∧ Grows B B' := by
  have hsame : B = B' → Proper W B' ∧ Grows B B' := by
    rintro rfl
    exact ⟨h, fun _ _ => id⟩
  unfold Replay.bindMessage at hr
  split at hr
  · split_ifs at hr
    · exact hsame (Except.ok.inj hr)
    · split at hr
      · exact hsame (Except.ok.inj hr)
      · split at hr
        · split at hr
          · rename_i old new hold hnew
            exact h.register (search_eq hold).1 (search_eq hnew).1 (search_eq hnew).2 hr
          · exact hsame (Except.ok.inj hr)
        · exact hsame (Except.ok.inj hr)
  · exact hsame (Except.ok.inj hr)

theorem Proper.fold (h : Proper W B) {observed : List (Json × List (List Char × Json))} {expected : List Json}
    (hr : expected.foldlM (Replay.bindMessage W eq observed) B = .ok B') : Proper W B' ∧ Grows B B' := by
  induction expected generalizing B with
  | nil =>
    cases hr
    exact ⟨h, fun _ _ => id⟩
  | cons message rest ih =>
    rw [List.foldlM_cons] at hr
    cases hm : Replay.bindMessage W eq observed B message with
    | error e => rw [hm] at hr; cases hr
    | ok C =>
      rw [hm] at hr
      obtain ⟨hC, hBC⟩ := h.bindMessage hm
      obtain ⟨hB', hCB'⟩ := ih hC hr
      exact ⟨hB', fun k b hb => hCB' k b (hBC k b hb)⟩

theorem Proper.bind (h : Proper W B) {expected actual : Json}
    (hr : bindProcessSessions W eq B expected actual = .ok B') :
    Proper W B' ∧ Grows B B' := by
  unfold bindProcessSessions at hr
  split at hr
  · rename_i es as
    cases ho : observe as with
    | error e => rw [ho] at hr; cases hr
    | ok observed =>
      rw [ho] at hr
      exact h.fold hr
  · cases hr
    exact ⟨h, fun _ _ => id⟩

theorem Proper.step (h : Proper W B) (l : Json × Json) :
    Proper W (bindStep W eq B l).1 ∧ Grows B (bindStep W eq B l).1 := by
  unfold bindStep
  split
  · rename_i result hr
    exact h.bind hr
  · exact ⟨h, fun _ _ => id⟩

theorem Proper.run (h : Proper W B) {as : List ((Json × Json) × Option BindError)} (hr : Run (system W eq) B as B') :
    Proper W B' ∧ Grows B B' := by
  induction hr with
  | nil => exact ⟨h, fun _ _ => id⟩
  | @snoc C D as l hr hstep ih =>
    obtain ⟨hC, hBC⟩ := ih
    obtain ⟨hD, hCD⟩ := hC.step l.1
    have he : (bindStep W eq C l.1).1 = D := congrArg Prod.fst (Option.some.inj hstep)
    exact ⟨he ▸ hD, fun k b hb => he ▸ hCD k b (hBC k b hb)⟩

theorem proper (h : Reachable (system W eq) B) : Proper W B := by
  obtain ⟨_, as, rfl, hr⟩ := h
  exact (Proper.empty.run hr).1

end Bindings

section Translation

variable (W : WordClass) (B : Bindings)

def pidAt (before w after : List Char) : Option (List Char) :=
  if w.all Char.isDigit ∧ after.head? = some ')' then
    (B.entries.find? fun e => (opening ++ e.1 ++ middle).isSuffixOf before).map fun e => e.2.pid
  else none

def sessionAt (w : List Char) : List Char := ((B.get? w).map Binding.sessionId).getD w

def liveWord (before w after : List Char) : List Char := (pidAt B before w after).getD (sessionAt B w)

/-- Every maximal token is translated in its place, and nothing else is touched. -/
def translated (s : List Char) : List Char := text (walk (liveWord B) [] (pieces W.token s))

mutual

def translatedValue : Json → Json
  | .arr items => .arr (translatedItems items)
  | .obj members => .obj (translatedMembers members)
  | .str s => .str (translated W B s)
  | v => v

def translatedItems : List Json → List Json
  | [] => []
  | v :: items => translatedValue v :: translatedItems items

def translatedMembers : List (List Char × Json) → List (List Char × Json)
  | [] => []
  | (key, v) :: members => (key, translatedValue v) :: translatedMembers members

end

/-- The text reports a bound session whose live pid names a recorded session that is live under another name. -/
def Cascades (s : List Char) : Prop :=
  ∃ k b n b', B.get? k = some b ∧ B.get? b.pid = some b' ∧ b'.sessionId ≠ b.pid ∧ IsWord Char.isDigit n ∧
    opening ++ k ++ middle ++ n ++ [')'] <:+: s

mutual

def strings : Json → List (List Char)
  | .arr items => itemStrings items
  | .obj members => memberStrings members
  | .str s => [s]
  | _ => []

def itemStrings : List Json → List (List Char)
  | [] => []
  | v :: items => strings v ++ itemStrings items

def memberStrings : List (List Char × Json) → List (List Char)
  | [] => []
  | (_, v) :: members => strings v ++ memberStrings members

end

end Translation

section Characters

variable {W : WordClass} {c : Char}

theorem WordClass.token_ascii (W : WordClass) (hc : c.toNat < 128) :
    W.token c = (c.isAlphanum || c = '_' || c = '-') := by
  rw [WordClass.token, W.ascii c hc]

theorem token_of_isDigit (hc : c.isDigit = true) : W.token c = true := by
  have hle : c.toNat < 128 := by
    simp only [Char.isDigit, Bool.and_eq_true, decide_eq_true_eq] at hc
    have := UInt32.le_iff_toNat_le.mp hc.2
    exact lt_of_le_of_lt this (by decide)
  rw [W.token_ascii hle, Char.isAlphanum, hc]
  simp

theorem not_token (W : WordClass) : W.token ' ' = false ∧ W.token ',' = false ∧ W.token ')' = false := by
  refine ⟨?_, ?_, ?_⟩
  · exact W.token_ascii (by decide)
  · exact W.token_ascii (by decide)
  · exact W.token_ascii (by decide)

theorem isWord_token {n : List Char} (h : IsWord Char.isDigit n) : IsWord W.token n :=
  ⟨h.1, fun c hc => token_of_isDigit (h.2 c hc)⟩

theorem running_of {x n rest : List Char} (hx : IsWord W.token x) (hn : IsWord Char.isDigit n) :
    running W (opening ++ (x ++ (middle ++ (n ++ ')' :: rest)))) = some (x, n, rest) := by
  have hmiddle : ∀ c ∈ (middle ++ (n ++ ')' :: rest)).head?, W.token c = false := by
    intro c hc
    cases hc
    exact (not_token W).2.1
  have hclose : ∀ c ∈ (')' :: rest).head?, c.isDigit = false := by
    intro c hc
    cases hc
    decide
  obtain ⟨hx₁, hx₂⟩ := takeWhile_word hx.2 hmiddle
  obtain ⟨hn₁, hn₂⟩ := takeWhile_word hn.2 hclose
  simp only [running, isPrefixOf?_eq_some.mpr rfl, Option.bind_some, hx₁, hx₂, hn₁, hn₂, List.isEmpty_iff, hx.1, hn.1,
    if_false]

end Characters

section Second

variable {W : WordClass} {B : Bindings}

theorem subSessions_copy {w rest : List Char} {c : Char} (hc : W.token c = true) (hw : ∀ d ∈ w, W.token d = true) :
    subSessions W B (some c) (w ++ rest) = w ++ subSessions W B (some (w.getLast?.getD c)) rest := by
  induction w generalizing c with
  | nil => rfl
  | cons d w ih =>
    have hd := hw d List.mem_cons_self
    rw [List.cons_append, subSessions, Option.any_some, if_pos hc, ih hd fun x hx => hw x (List.mem_cons_of_mem _ hx)]
    cases w with
    | nil => rfl
    | cons e w => rfl

theorem find_session (h : Proper W B) {w rest : List Char} (hw : IsWord W.token w)
    (hrest : ∀ c ∈ rest.head?, W.token c = false) :
    B.entries.find? (fun e => e.1.isPrefixOf (w ++ rest) && !((w ++ rest).drop e.1.length).head?.any W.token) =
      (B.get? w).map fun b => (w, b) := by
  have hmatch : ∀ e ∈ B.entries, (e.1.isPrefixOf (w ++ rest) &&
      !((w ++ rest).drop e.1.length).head?.any W.token) = decide (e.1 = w) := by
    intro e he
    have hkey := h.key e.1 e.2 (PyDict.get?_eq_some.mpr he)
    rw [Bool.eq_iff_iff, decide_eq_true_eq, Bool.and_eq_true, List.isPrefixOf_iff_prefix]
    constructor
    · rintro ⟨⟨r, hr⟩, hafter⟩
      rw [← hr, List.drop_left] at hafter
      refine (eq_of_append_eq hkey.2 hw.2 (fun c hc => ?_) hrest hr).1
      rw [Option.mem_def] at hc
      simpa [hc] using hafter
    · rintro rfl
      refine ⟨List.prefix_append _ _, ?_⟩
      rw [List.drop_left]
      cases hhead : rest.head? with
      | none => rfl
      | some c => simp [hrest c hhead]
  rw [PyDict.get?, List.find?_congr hmatch]
  cases hf : B.entries.find? fun e => decide (e.1 = w) with
  | none => rfl
  | some e =>
    have he := List.find?_some hf
    rw [decide_eq_true_eq] at he
    rw [Option.map_some, Option.map_some, ← he]

theorem subSessions_text (h : Proper W B) {ps : List (Piece Char)} (hps : Regular W.token ps) {prev : Option Char}
    (before : List Char) (hprev : prev.any W.token = true → ∀ v qs, ps ≠ .word v :: qs) :
    subSessions W B prev (text ps) = text (walk (fun _ w _ => sessionAt B w) before ps) := by
  induction ps generalizing prev before with
  | nil => rw [text_nil, subSessions]; rfl
  | cons p ps ih =>
    cases p with
    | other c =>
      have hnot := hps.1
      have hnone : B.entries.find? (fun e => e.1.isPrefixOf (c :: text ps) &&
          !((c :: text ps).drop e.1.length).head?.any W.token) = none := by
        refine List.find?_eq_none.mpr fun e he hm => ?_
        rw [Bool.and_eq_true, List.isPrefixOf_iff_prefix] at hm
        obtain ⟨hne, hall⟩ := h.key e.1 e.2 (PyDict.get?_eq_some.mpr he)
        obtain ⟨r, hr⟩ := hm.1
        cases hk : e.1 with
        | nil => exact hne hk
        | cons d k =>
          rw [hk, List.cons_append] at hr
          have hd := hall d (by simp [hk])
          rw [(List.cons.inj hr).1, hnot] at hd
          cases hd
      have hprev' : (some c).any W.token = true → ∀ v qs, ps ≠ .word v :: qs := fun hc => by simp [hnot] at hc
      have hrest := ih hps.2 (before ++ [c]) hprev'
      rw [text_cons, Piece.text, List.singleton_append, subSessions, hnone, hrest]
      split_ifs <;> rfl
    | word w =>
      have hp : prev.any W.token = false := by
        by_contra hc
        exact hprev (by simpa using hc) w ps rfl
      have hafter := hps.after_word
      have hfind := find_session h hps.1 hafter
      obtain ⟨⟨hne, hall⟩, hnext, hreg⟩ := hps
      have hrest : ∀ q : Option Char, subSessions W B q (text ps) =
          text (walk (fun _ w _ => sessionAt B w) (before ++ w) ps) := fun q => ih hreg _ fun _ => hnext
      obtain ⟨c, v, rfl⟩ := List.exists_cons_of_ne_nil hne
      rw [text_cons, Piece.text, List.cons_append, subSessions, hp, if_neg Bool.false_ne_true, ← List.cons_append,
        hfind, walk, text_cons, Piece.text, sessionAt]
      cases hb : B.get? (c :: v) with
      | none =>
        rw [Option.map_none, Option.map_none, Option.getD_none]
        dsimp only
        rw [subSessions_copy (hall c List.mem_cons_self) (fun d hd => hall d (List.mem_cons_of_mem _ hd)), hrest,
          List.cons_append]
      | some b =>
        rw [Option.map_some, Option.map_some, Option.getD_some]
        dsimp only
        rw [List.drop_left, hrest]

end Second

section First

variable {W : WordClass} {B : Bindings}

def Reported (before k : List Char) : Prop := ∃ l, before = l ++ (opening ++ (k ++ middle))

theorem pidAt_eq_some {before w after pid : List Char} (h : pidAt B before w after = some pid) :
    (∀ c ∈ w, Char.isDigit c = true) ∧ after.head? = some ')' ∧
      ∃ k b, B.get? k = some b ∧ b.pid = pid ∧ Reported before k := by
  unfold pidAt at h
  split_ifs at h with hc
  obtain ⟨e, he, rfl⟩ := Option.map_eq_some_iff.mp h
  have hsuffix := List.find?_some he
  obtain ⟨l, hl⟩ := List.isSuffixOf_iff_suffix.mp hsuffix
  refine ⟨List.all_eq_true.mp hc.1, hc.2, e.1, e.2, PyDict.get?_eq_some.mpr (List.mem_of_find?_eq_some he), rfl, l, ?_⟩
  rw [← hl, List.append_assoc]

theorem Reported.inj {before j k : List Char} (hj : ∀ c ∈ j, W.token c = true) (hk : ∀ c ∈ k, W.token c = true)
    (h : Reported before j) (h' : Reported before k) : j = k := by
  obtain ⟨l, rfl⟩ := h
  obtain ⟨l', he⟩ := h'
  have hopen : opening = "Command still running (session".toList ++ [' '] := by decide
  have hrev := congrArg List.reverse he
  simp only [List.reverse_append, List.append_assoc] at hrev
  rw [List.append_cancel_left_eq, hopen, List.reverse_append, List.reverse_singleton, List.singleton_append,
    List.cons_append, List.cons_append] at hrev
  have hspace : ∀ (r : List Char), ∀ c ∈ (' ' :: r).head?, W.token c = false := by
    rintro r c hc
    cases hc
    exact (not_token W).1
  have hjk := (eq_of_append_eq (fun c hc => hj c (List.mem_reverse.mp hc)) (fun c hc => hk c (List.mem_reverse.mp hc))
    (hspace _) (hspace _) hrev).1
  exact List.reverse_injective hjk

theorem pidAt_reported (h : Proper W B) {before x w after : List Char} (hx : IsWord W.token x) (hr : Reported before x)
    (hw : ∀ c ∈ w, Char.isDigit c = true) (hafter : after.head? = some ')') :
    pidAt B before w after = (B.get? x).map Binding.pid := by
  have hmatch : ∀ e ∈ B.entries, (opening ++ e.1 ++ middle).isSuffixOf before = decide (e.1 = x) := by
    intro e he
    have hkey := h.key e.1 e.2 (PyDict.get?_eq_some.mpr he)
    rw [Bool.eq_iff_iff, decide_eq_true_eq, List.isSuffixOf_iff_suffix]
    constructor
    · rintro ⟨l, hl⟩
      exact Reported.inj hkey.2 hx.2 ⟨l, by rw [← hl, List.append_assoc]⟩ hr
    · rintro rfl
      obtain ⟨l, rfl⟩ := hr
      exact ⟨l, by rw [List.append_assoc]⟩
  rw [pidAt, if_pos ⟨List.all_eq_true.mpr hw, hafter⟩, PyDict.get?, List.find?_congr hmatch, Option.map_map]
  rfl

theorem Reported.last {before k : List Char} (h : Reported before k) : before.getLast? = some ' ' := by
  obtain ⟨l, rfl⟩ := h
  have hmid : middle = ", pid".toList ++ [' '] := by decide
  rw [hmid, ← List.append_assoc, ← List.append_assoc, ← List.append_assoc, List.getLast?_concat]

inductive Pids (B : Bindings) : List Char → List Char → List Char → Prop
  | nil (before : List Char) : Pids B before [] []
  | pid {before w rest pid out : List Char} (hw : IsWord Char.isDigit w) (h : pidAt B before w rest = some pid)
    (hrest : Pids B (before ++ w) rest out) : Pids B before (w ++ rest) (pid ++ out)
  | copy {before rest out : List Char} {c : Char}
    (h : ∀ w r, c :: rest = w ++ r → IsWord Char.isDigit w → pidAt B before w r = none)
    (hrest : Pids B (before ++ [c]) rest out) : Pids B before (c :: rest) (c :: out)

theorem paren_not_digit {after : List Char} (h : after.head? = some ')') :
    ∀ c ∈ after.head?, Char.isDigit c = false := by
  intro c hc
  rw [h] at hc
  cases hc
  decide

theorem Pids.unique {before s out out' : List Char} (h : Pids B before s out) (h' : Pids B before s out') :
    out = out' := by
  induction h generalizing out' with
  | nil before =>
    generalize hs : ([] : List Char) = s at h'
    cases h' with
    | nil => rfl
    | pid hw h hrest => exact absurd (List.append_eq_nil_iff.mp hs.symm).1 hw.1
    | copy h hrest => cases hs
  | @pid before w rest pid out hw h hrest ih =>
    generalize hs : w ++ rest = s at h'
    cases h' with
    | nil => exact absurd (List.append_eq_nil_iff.mp hs).1 hw.1
    | pid hw' h' hrest' =>
      obtain ⟨rfl, rfl⟩ := eq_of_append_eq hw.2 hw'.2 (paren_not_digit (pidAt_eq_some h).2.1)
        (paren_not_digit (pidAt_eq_some h').2.1) hs
      rw [h, Option.some.injEq] at h'
      rw [h', ih hrest']
    | copy h' hrest' =>
      rw [h' w rest hs.symm hw] at h
      cases h
  | @copy before rest out c h hrest ih =>
    generalize hs : c :: rest = s at h'
    cases h' with
    | nil => cases hs
    | pid hw' h' hrest' =>
      rw [h _ _ hs hw'] at h'
      cases h'
    | copy h' hrest' =>
      obtain ⟨rfl, rfl⟩ := List.cons.inj hs
      rw [ih hrest']

theorem Pids.append {before s rest out : List Char}
    (h : ∀ a b w r, s = a ++ b → b ≠ [] → b ++ rest = w ++ r → IsWord Char.isDigit w → pidAt B (before ++ a) w r = none)
    (hrest : Pids B (before ++ s) rest out) : Pids B before (s ++ rest) (s ++ out) := by
  induction s generalizing before with
  | nil => simpa using hrest
  | cons c s ih =>
    refine .copy (fun w r he hw => ?_) (ih (fun a b w r he hb hr hw => ?_) (by simpa using hrest))
    · have hnone := h [] (c :: s) w r rfl (by simp) he hw
      rwa [List.append_nil] at hnone
    · have hnone := h (c :: a) b w r (by rw [he, List.cons_append]) hb hr hw
      rwa [List.append_assoc, List.singleton_append]

theorem pidAt_inside {before a w r : List Char} (ha : a ≠ []) (htok : ∀ c ∈ a, W.token c = true) :
    pidAt B (before ++ a) w r = none := by
  by_contra hne
  obtain ⟨pid, hpid⟩ := Option.ne_none_iff_exists'.mp hne
  obtain ⟨-, -, k, b, -, -, hr⟩ := pidAt_eq_some hpid
  have hlast := hr.last
  rw [List.getLast?_append_of_ne_nil _ ha] at hlast
  have hspace := htok ' ' (List.mem_of_getLast? hlast)
  rw [(not_token W).1] at hspace
  cases hspace

theorem pids_text {ps : List (Piece Char)} (hps : Regular W.token ps) (before : List Char) :
    Pids B before (text ps) (text (walk (fun a w b => (pidAt B a w b).getD w) before ps)) := by
  induction ps generalizing before with
  | nil => exact .nil before
  | cons p ps ih =>
    cases p with
    | other c =>
      change Pids B before (c :: text ps) (c :: text (walk _ (before ++ [c]) ps))
      refine .copy (fun w r he hw => ?_) (ih hps.2 _)
      obtain ⟨d, v, rfl⟩ := List.exists_cons_of_ne_nil hw.1
      have hd := token_of_isDigit (W := W) (hw.2 d List.mem_cons_self)
      rw [List.cons_append] at he
      rw [← (List.cons.inj he).1, hps.1] at hd
      cases hd
    | word w =>
      have hafter := hps.after_word
      obtain ⟨⟨hne, hall⟩, hnext, hreg⟩ := hps
      rw [text_cons, walk, text_cons, Piece.text, Piece.text]
      cases hp : pidAt B before w (text ps) with
      | some pid =>
        rw [Option.getD_some]
        exact .pid ⟨hne, (pidAt_eq_some hp).1⟩ hp (ih hreg _)
      | none =>
        rw [Option.getD_none]
        refine .append (fun a b v r he hb hr hv => ?_) (ih hreg _)
        cases a with
        | cons d a =>
          refine pidAt_inside (W := W) (by simp) fun x hx => hall x ?_
          rw [he]
          exact List.mem_append_left _ hx
        | nil =>
          rw [List.nil_append] at he
          subst he
          rw [List.append_nil]
          by_contra hsome
          obtain ⟨pid, hpid⟩ := Option.ne_none_iff_exists'.mp hsome
          have hparen := (pidAt_eq_some hpid).2.1
          have hstop : ∀ c ∈ r.head?, W.token c = false := by
            intro c hc
            rw [hparen] at hc
            cases hc
            exact (not_token W).2.2
          obtain ⟨rfl, rfl⟩ := eq_of_append_eq hall (isWord_token (W := W) hv).2 hafter hstop hr
          rw [hp] at hpid
          cases hpid

def Behind (W : WordClass) (before rest : List Char) : Prop :=
  ∀ a b x n r, before = a ++ b → b ≠ [] → running W (b ++ rest) = some (x, n, r) → rest.length ≤ r.length

theorem Behind.no_pid (h : Proper W B) {before cs : List Char} (hb : Behind W before cs) {w r : List Char}
    (he : cs = w ++ r) (hw : IsWord Char.isDigit w) : pidAt B before w r = none := by
  by_contra hne
  obtain ⟨pid, hpid⟩ := Option.ne_none_iff_exists'.mp hne
  obtain ⟨-, hparen, k, b, hk, -, l, hl⟩ := pidAt_eq_some hpid
  obtain ⟨r, rfl⟩ := List.head?_eq_some_iff.mp hparen
  have hrun : running W (opening ++ (k ++ middle) ++ cs) = some (k, w, r) := by
    rw [he, List.append_assoc, List.append_assoc]
    exact running_of (h.key k b hk) hw
  have hne : opening ++ (k ++ middle) ≠ [] := List.append_ne_nil_of_left_ne_nil (by decide) _
  have hle := hb l _ k w r hl hne hrun
  rw [he, List.length_append, List.length_cons] at hle
  omega

theorem running_head {cs x n r : List Char} (h : running W cs = some (x, n, r)) : cs.head? = some 'C' := by
  rw [(running_eq h).1]
  rfl

theorem command_word (W : WordClass) : ∀ c ∈ "Command".toList, W.token c = true := by
  intro c hc
  have hword : "Command".toList.all (fun c => c.toNat < 128 && c.isAlphanum) = true := by decide
  have hall : ∀ c ∈ "Command".toList, c.toNat < 128 ∧ c.isAlphanum = true := by
    simpa only [List.all_eq_true, Bool.and_eq_true, decide_eq_true_eq] using hword
  rw [W.token_ascii (hall c hc).1, (hall c hc).2]
  rfl

theorem opening_command : opening = "Command".toList ++ (' ' :: "still running (session ".toList) := by decide

theorem running_in_session {x n rest a b : List Char} (hx : IsWord W.token x) (hn : IsWord Char.isDigit n)
    (he : x ++ (middle ++ (n ++ [')'])) = a ++ b) (hb : b ≠ []) : running W (b ++ rest) = none := by
  by_contra hne
  obtain ⟨⟨y, m, r⟩, hrun⟩ := Option.ne_none_iff_exists'.mp hne
  have hC : 'C' ∈ b := by
    refine List.mem_of_head? ?_
    rw [← running_head hrun, List.head?_append_of_ne_nil _ hb]
  have htail : 'C' ∉ middle ++ (n ++ [')']) := by
    simp only [List.mem_append, not_or]
    refine ⟨by decide, fun hm => ?_, by decide⟩
    exact absurd (hn.2 'C' hm) (by decide)
  rcases List.append_eq_append_iff.mp he with ⟨as, rfl, htl⟩ | ⟨v, rfl, rfl⟩
  · refine htail ?_
    rw [htl]
    exact List.mem_append_right _ hC
  · -- the rest of the session is followed by a comma, `Command` by a space
    have heq := (running_eq hrun).1
    rw [opening_command] at heq
    simp only [List.append_assoc, List.cons_append] at heq
    have hsep := (eq_of_append_eq (fun d hd => hx.2 d (List.mem_append_right _ hd)) (command_word W)
      (fun d hd => ?_) (fun d hd => ?_) heq).2
    · exact absurd (List.cons.inj hsep).1 (by decide)
    · rw [← Option.mem_some_iff.mp hd]
      exact (not_token W).2.1
    · rw [← Option.mem_some_iff.mp hd]
      exact (not_token W).1

theorem running_inside {x n rest a b : List Char} (hx : IsWord W.token x) (hn : IsWord Char.isDigit n)
    (he : opening ++ (x ++ (middle ++ (n ++ [')']))) = a ++ b) (ha : a ≠ []) (hb : b ≠ []) :
    running W (b ++ rest) = none := by
  rcases List.append_eq_append_iff.mp he with ⟨as, rfl, hrest⟩ | ⟨bs, hopen, rfl⟩
  · exact running_in_session hx hn hrest hb
  · obtain ⟨c, a, rfl⟩ := List.exists_cons_of_ne_nil ha
    cases bs with
    | nil => exact running_in_session hx hn (a := []) rfl hb
    | cons d bs =>
      by_contra hne
      obtain ⟨⟨y, m, r⟩, hrun⟩ := Option.ne_none_iff_exists'.mp hne
      have hd : d = 'C' := Option.some.inj (running_head hrun)
      have hin : 'C' ∈ opening.tail := by
        rw [hopen, hd]
        simp
      exact absurd hin (by decide)

theorem Behind.report {before cs x n rest : List Char} (hb : Behind W before cs)
    (hrun : running W cs = some (x, n, rest)) :
    Behind W (before ++ (opening ++ (x ++ (middle ++ (n ++ [')']))))) rest := by
  obtain ⟨heq, hx, hn⟩ := running_eq hrun
  have hcs : opening ++ (x ++ (middle ++ (n ++ [')']))) ++ rest = cs := by
    rw [heq]
    simp only [List.append_assoc, List.singleton_append]
  intro a b y m r he hne hr
  rcases List.append_eq_append_iff.mp he with ⟨as, rfl, hm⟩ | ⟨bs, rfl, rfl⟩
  · cases as with
    | nil =>
      rw [List.nil_append] at hm
      rw [← hm, hcs, hrun] at hr
      cases hr
      exact le_rfl
    | cons c as =>
      rw [running_inside hx hn hm (by simp) hne] at hr
      cases hr
  · cases bs with
    | nil =>
      rw [List.nil_append, hcs, hrun] at hr
      cases hr
      exact le_rfl
    | cons c bs =>
      rw [List.append_assoc, hcs] at hr
      have hle := hb a (c :: bs) y m r rfl (by simp) hr
      rw [← hcs, List.length_append] at hle
      omega

theorem Behind.copy {before cs : List Char} {c : Char} (hb : Behind W before (c :: cs))
    (hrun : running W (c :: cs) = none) : Behind W (before ++ [c]) cs := by
  intro a b y m r he hne hr
  rcases List.append_eq_append_iff.mp he with ⟨as, rfl, hm⟩ | ⟨bs, rfl, rfl⟩
  · rcases List.append_eq_cons_iff.mp hm.symm with ⟨rfl, rfl⟩ | ⟨as', rfl, hnil⟩
    · rw [List.singleton_append, hrun] at hr
      cases hr
    · exact absurd (List.append_eq_nil_iff.mp hnil.symm).2 hne
  · cases bs with
    | nil =>
      rw [List.nil_append, List.singleton_append, hrun] at hr
      cases hr
    | cons d bs =>
      rw [List.append_assoc, List.singleton_append] at hr
      have hle := hb a (d :: bs) y m r rfl (by simp) hr
      rw [List.length_cons] at hle
      omega

theorem pidAt_report {x n rest before a b w r : List Char} (hx : IsWord W.token x)
    (he : opening ++ (x ++ middle) = a ++ b) (hb : b ≠ []) (hr : b ++ (n ++ ')' :: rest) = w ++ r)
    (hw : IsWord Char.isDigit w) : pidAt B before w r = none := by
  by_contra hne
  obtain ⟨pid, hpid⟩ := Option.ne_none_iff_exists'.mp hne
  have hparen := (pidAt_eq_some hpid).2.1
  have hspace : ' ' ∈ b := by
    have hlast : (a ++ b).getLast? = some ' ' := by
      rw [← he]
      exact Reported.last ⟨[], rfl⟩
    rw [List.getLast?_append_of_ne_nil _ hb] at hlast
    exact List.mem_of_getLast? hlast
  have hno : ')' ∉ opening ++ (x ++ middle) := by
    simp only [List.mem_append, not_or]
    refine ⟨by decide, fun hm => ?_, by decide⟩
    have htok := hx.2 ')' hm
    rw [(not_token W).2.2] at htok
    cases htok
  rcases List.append_eq_append_iff.mp hr with ⟨as, rfl, -⟩ | ⟨bs, rfl, rfl⟩
  · exact absurd (hw.2 ' ' (List.mem_append_left _ hspace)) (by decide)
  · cases bs with
    | nil =>
      rw [List.append_nil] at hspace
      exact absurd (hw.2 ' ' hspace) (by decide)
    | cons c bs =>
      have hc : c = ')' := Option.some.inj hparen
      refine hno ?_
      rw [he, hc]
      simp

theorem pids_report (h : Proper W B) {before x n rest out : List Char} (hx : IsWord W.token x)
    (hn : IsWord Char.isDigit n) (hrest : Pids B (before ++ (opening ++ (x ++ (middle ++ (n ++ [')']))))) rest out) :
    Pids B before (opening ++ (x ++ (middle ++ (n ++ ')' :: rest))))
      (opening ++ (x ++ (middle ++ (((B.get? x).map Binding.pid).getD n ++ ')' :: out)))) := by
  have hpid : pidAt B (before ++ (opening ++ (x ++ middle))) n (')' :: rest) = (B.get? x).map Binding.pid :=
    pidAt_reported h hx ⟨before, rfl⟩ hn.2 rfl
  have hclose : Pids B (before ++ (opening ++ (x ++ middle)) ++ n) (')' :: rest) (')' :: out) := by
    refine .copy (fun w r he hw => ?_) (by simpa using hrest)
    obtain ⟨d, v, rfl⟩ := List.exists_cons_of_ne_nil hw.1
    have hd := hw.2 d List.mem_cons_self
    rw [← (List.cons.inj he).1] at hd
    exact absurd hd (by decide)
  have htail : Pids B (before ++ (opening ++ (x ++ middle))) (n ++ ')' :: rest)
      (((B.get? x).map Binding.pid).getD n ++ ')' :: out) := by
    cases hb : B.get? x with
    | some b =>
      rw [hb] at hpid
      exact .pid hn hpid hclose
    | none =>
      rw [hb] at hpid
      refine .append (fun a b w r he hne hr hw => ?_) hclose
      cases a with
      | cons d a =>
        refine pidAt_inside (W := W) (by simp) fun c hc => token_of_isDigit (hn.2 c ?_)
        rw [he]
        exact List.mem_append_left _ hc
      | nil =>
        rw [List.nil_append] at he
        subst he
        rw [List.append_nil]
        by_contra hsome
        obtain ⟨pid, hp⟩ := Option.ne_none_iff_exists'.mp hsome
        obtain ⟨rfl, rfl⟩ := eq_of_append_eq hn.2 hw.2 (paren_not_digit rfl)
          (paren_not_digit (pidAt_eq_some hp).2.1) hr
        rw [hpid] at hp
        cases hp
  have hall := Pids.append (s := opening ++ (x ++ middle)) (fun a b w r he hb hr hw => pidAt_report hx he hb hr hw)
    htail
  simpa only [List.append_assoc] using hall

theorem pids_subRunning (h : Proper W B) {before cs : List Char} (hb : Behind W before cs) :
    Pids B before cs (subRunning W B cs) := by
  induction hlen : cs.length using Nat.strong_induction_on generalizing before cs with
  | _ len ih =>
    cases cs with
    | nil =>
      rw [subRunning]
      exact .nil before
    | cons c cs =>
      rw [subRunning]
      split
      · rename_i x n rest hrun
        obtain ⟨heq, hx, hn⟩ := running_eq hrun
        have hshort : rest.length < len := by
          rw [← hlen, heq]
          simp only [List.length_append, List.length_cons]
          omega
        rw [heq]
        exact pids_report h hx hn (ih _ hshort (hb.report hrun) rfl)
      · rename_i hrun
        rw [List.length_cons] at hlen
        exact .copy (fun w r he hw => hb.no_pid h he hw) (ih _ (by omega) (hb.copy hrun) rfl)

theorem subRunning_text (h : Proper W B) (s : List Char) :
    subRunning W B s = text (walk (fun a w b => (pidAt B a w b).getD w) [] (pieces W.token s)) := by
  have hbehind : Behind W [] s := by
    intro a b x n r he hne
    exact absurd (List.append_eq_nil_iff.mp he.symm).2 hne
  have hpids := pids_text (B := B) (regular_pieces W.token s) []
  rw [text_pieces] at hpids
  exact (pids_subRunning h hbehind).unique hpids

end First

section Both

variable {W : WordClass} {eq : Json → Json → Bool} {B : Bindings}

theorem isWord_sessionAt (h : Proper W B) {w : List Char} (hw : IsWord W.token w) : IsWord W.token (sessionAt B w) := by
  rw [sessionAt]
  cases hb : B.get? w with
  | none => exact hw
  | some b => exact h.session w b hb

theorem isWord_pidAt (h : Proper W B) {a w b : List Char} (hw : IsWord W.token w) :
    IsWord W.token ((pidAt B a w b).getD w) := by
  cases hp : pidAt B a w b with
  | none => exact hw
  | some pid =>
    obtain ⟨-, -, k, binding, hk, rfl, -⟩ := pidAt_eq_some hp
    exact isWord_token (h.pid k binding hk)

theorem rebindText_eq (h : Proper W B) (s : List Char) :
    rebindText W B s = text (walk (fun a w b => sessionAt B ((pidAt B a w b).getD w)) [] (pieces W.token s)) := by
  unfold rebindText
  split_ifs with hempty
  · have hnil : B.entries = [] := by simpa using hempty
    have hsame : (fun a w b => sessionAt B ((pidAt B a w b).getD w)) = fun _ w _ => w := by
      funext a w b
      simp [sessionAt, pidAt, PyDict.get?, hnil]
    rw [hsame, walk_id, text_pieces]
  · have hregular := (regular_pieces W.token s).walk (f := fun a w b => (pidAt B a w b).getD w)
      (fun a w b hw => isWord_pidAt h hw) []
    rw [subRunning_text h, subSessions_text h hregular [] (fun hc => by cases hc), walk_walk]

theorem pidAt_of_cascade (h : Proper W B) {s k n pre post : List Char} {binding : Binding}
    (hk : B.get? k = some binding) (hn : IsWord Char.isDigit n)
    (hs : pre ++ (opening ++ k ++ middle ++ n ++ [')']) ++ post = s) :
    ∃ p₁ p₂, pieces W.token s = p₁ ++ .word n :: p₂ ∧ pidAt B (text p₁) n (text p₂) = some binding.pid := by
  have hmid : middle = ", pid".toList ++ [' '] := by decide
  have hsplit : s = (pre ++ (opening ++ (k ++ ", pid".toList))) ++ ' ' :: (n ++ ')' :: post) := by
    rw [← hs, hmid]
    simp only [List.append_assoc, List.cons_append, List.nil_append]
  have hword : pieces W.token (n ++ ')' :: post) = .word n :: .other ')' :: pieces W.token post := by
    refine pieces_word_append (isWord_token hn) (fun v qs he => by cases he) ?_
    rw [pieces, (not_token W).2.2, if_neg Bool.false_ne_true]
  refine ⟨pieces W.token (pre ++ (opening ++ (k ++ ", pid".toList))) ++ [.other ' '], .other ')' :: pieces W.token post,
    ?_, ?_⟩
  · rw [hsplit, pieces_append_other (not_token W).1, hword, List.append_assoc]
    rfl
  · refine (pidAt_reported h (h.key k binding hk) ⟨pre, ?_⟩ hn.2 rfl).trans (by rw [hk]; rfl)
    rw [text, List.flatMap_append, ← text, text_pieces, hmid]
    simp only [List.flatMap_cons, List.flatMap_nil, Piece.text, List.append_assoc, List.append_nil]

theorem rebindText_iff (h : Proper W B) (s : List Char) : rebindText W B s = translated W B s ↔ ¬Cascades B s := by
  rw [rebindText_eq h, translated]
  constructor
  · rintro heq ⟨k, b, n, b', hk, hb', hne, hn, pre, post, hs⟩
    obtain ⟨p₁, p₂, hpieces, hpid⟩ := pidAt_of_cascade h hk hn hs
    have hwalks :=
      text_inj ((regular_pieces W.token s).walk (fun a w b hw => isWord_sessionAt h (isWord_pidAt h hw)) [])
      ((regular_pieces W.token s).walk (fun a w b hw => ?_) []) heq
    · rw [hpieces] at hwalks
      have hword := eq_of_walk_eq hwalks
      rw [List.nil_append, liveWord, hpid, Option.getD_some, Option.getD_some, sessionAt, hb'] at hword
      exact hne hword
    · rw [liveWord]
      cases hp : pidAt B a w b with
      | none => exact isWord_sessionAt h hw
      | some pid =>
        have hpw := isWord_pidAt h hw (a := a) (b := b)
        rwa [hp] at hpw
  · intro hno
    refine congrArg text (walk_congr fun p₁ w p₂ hps => ?_)
    rw [List.nil_append, liveWord]
    cases hp : pidAt B (text p₁) w (text p₂) with
    | none => rfl
    | some pid =>
      obtain ⟨hdigits, hparen, k, b, hk, rfl, l, hl⟩ := pidAt_eq_some hp
      rw [Option.getD_some, Option.getD_some, sessionAt]
      cases hb' : B.get? b.pid with
      | none => rfl
      | some b' =>
        by_contra hne
        have hregular := regular_pieces W.token s
        rw [hps] at hregular
        obtain ⟨r, hr⟩ := List.head?_eq_some_iff.mp hparen
        refine hno ⟨k, b, w, b', hk, hb', hne, ⟨hregular.word.1, hdigits⟩, l, r, ?_⟩
        rw [← text_pieces W.token s, hps, text, List.flatMap_append, ← text, List.flatMap_cons, ← text, Piece.text, hl,
          hr]
        simp only [List.append_assoc, List.singleton_append]

mutual

theorem rebind_value (h : Proper W B) : ∀ v : Json,
    rebindProcessSessions W B v = translatedValue W B v ↔ ∀ s ∈ strings v, ¬Cascades B s
  | .null => by simp [rebindProcessSessions, translatedValue, strings]
  | .bool _ => by simp [rebindProcessSessions, translatedValue, strings]
  | .num _ => by simp [rebindProcessSessions, translatedValue, strings]
  | .str s => by
    rw [rebindProcessSessions, translatedValue, strings, Json.str.injEq, rebindText_iff h]
    simp
  | .arr items => by
    rw [rebindProcessSessions, translatedValue, strings, Json.arr.injEq, rebind_items h items]
  | .obj members => by
    rw [rebindProcessSessions, translatedValue, strings, Json.obj.injEq, rebind_members h members]

theorem rebind_items (h : Proper W B) : ∀ items : List Json,
    rebindItems W B items = translatedItems W B items ↔ ∀ s ∈ itemStrings items, ¬Cascades B s
  | [] => by simp [rebindItems, translatedItems, itemStrings]
  | v :: items => by
    rw [rebindItems, translatedItems, itemStrings, List.cons.injEq, rebind_value h v, rebind_items h items,
      List.forall_mem_append]

theorem rebind_members (h : Proper W B) : ∀ members : List (List Char × Json),
    rebindMembers W B members = translatedMembers W B members ↔ ∀ s ∈ memberStrings members, ¬Cascades B s
  | [] => by simp [rebindMembers, translatedMembers, memberStrings]
  | (key, v) :: members => by
    rw [rebindMembers, translatedMembers, memberStrings, List.cons.injEq, Prod.mk.injEq, rebind_value h v,
      rebind_members h members, List.forall_mem_append, and_iff_right rfl]

end

/-- The bindings behave; the translation is simultaneous on exactly the values that report no pid which names a
session. -/
theorem process_sessions_translated (h : Reachable (system W eq) B) :
    (∀ as B', Run (system W eq) B as B' → Grows B B') ∧
      (∀ k b k' b', B.get? k = some b → B.get? k' = some b' → b.sessionId = b'.sessionId → k = k') ∧
      (∀ expected actual e, bindProcessSessions W eq B expected actual = .error e →
        (bindStep W eq B (expected, actual)).1 = B) ∧
      ∀ v, rebindProcessSessions W B v = translatedValue W B v ↔ ∀ s ∈ strings v, ¬Cascades B s := by
  have hproper := proper h
  refine ⟨fun as B' hr => (hproper.run hr).2, hproper.injective, fun expected actual e he => ?_, rebind_value hproper⟩
  rw [bindStep, he]

end Both

section Example

def asciiWords : WordClass := ⟨fun c => c.isAlphanum || c = '_', fun _ _ => rfl⟩

def sameText : Json → Json → Bool
  | .str a, .str b => a = b
  | _, _ => false

def toolMessage (content : String) : Json :=
  .arr [.obj [("role".toList, .str "tool".toList), ("tool_call_id".toList, .str "call".toList),
    ("content".toList, .str content.toList)]]

def digitReports : Json × Json :=
  (toolMessage "Command still running (session 7, pid 9)", toolMessage "Command still running (session a, pid 7)")

def digitHandles : Bindings := (bindStep asciiWords sameText ∅ digitReports).1

theorem digitHandles_reachable : Reachable (system asciiWords sameText) digitHandles :=
  (Reachable.start (T := system asciiWords sameText) rfl).step
    (a := (digitReports, (bindStep asciiWords sameText ∅ digitReports).2)) rfl

theorem process_sessions_cascade :
    rebindText asciiWords digitHandles "Command still running (session 7, pid 9)".toList =
        "Command still running (session a, pid a)".toList ∧
      ¬∀ W eq B, Reachable (system W eq) B → ∀ v, rebindProcessSessions W B v = translatedValue W B v := by
  have hcode : rebindText asciiWords digitHandles "Command still running (session 7, pid 9)".toList =
      "Command still running (session a, pid a)".toList := by decide +kernel
  refine ⟨hcode, fun h => ?_⟩
  have hv := h asciiWords sameText digitHandles digitHandles_reachable
    (.str "Command still running (session 7, pid 9)".toList)
  rw [rebindProcessSessions, translatedValue, Json.str.injEq, hcode] at hv
  revert hv
  decide +kernel

theorem process_sessions_translated_poll :
    rebindProcessSessions asciiWords digitHandles (.str "poll 7".toList) =
      translatedValue asciiWords digitHandles (.str "poll 7".toList) := by
  refine ((process_sessions_translated digitHandles_reachable).2.2.2 _).mpr fun s hs => ?_
  rw [strings, List.mem_singleton] at hs
  subst hs
  rintro ⟨k, b, n, b', -, -, -, -, hin⟩
  have hlen := hin.length_le
  simp only [List.length_append] at hlen
  have hopen : opening.length = 31 := by decide
  have hpoll : "poll 7".toList.length = 6 := by decide
  omega

end Example

end ClawBox.Replay
