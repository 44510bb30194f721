import ClawBox.Lib.Json
import ClawBox.Lib.PyDict
import ClawBox.Lib.Tokens
import ClawBox.Lib.Transition

namespace ClawBox.Replay

open JsonText Tokens Transition

/-- The characters that `\w` matches: letters, digits and `_` in ASCII, and beyond it any set. Python takes the
Unicode alphanumerics there, and `[\w-]` adds the hyphen. -/
structure WordClass where
  word : Char → Bool
  ascii : ∀ c : Char, c.toNat < 128 → word c = (c.isAlphanum || c = '_')

def WordClass.token (W : WordClass) (c : Char) : Bool := W.word c || c = '-'

def opening : List Char := "Command still running (session ".toList

def middle : List Char := ", pid ".toList

def running (W : WordClass) (cs : List Char) : Option (List Char × List Char × List Char) :=
  (opening.isPrefixOf? cs).bind fun rest =>
    if (rest.takeWhile W.token).isEmpty then none
    else
      (middle.isPrefixOf? (rest.dropWhile W.token)).bind fun tail =>
        if (tail.takeWhile Char.isDigit).isEmpty then none
        else
          match tail.dropWhile Char.isDigit with
          | ')' :: after => some (rest.takeWhile W.token, tail.takeWhile Char.isDigit, after)
          | _ => none

theorem isPrefixOf?_eq_some {p s r : List Char} : p.isPrefixOf? s = some r ↔ s = p ++ r := by
  induction p generalizing s with
  | nil => simp [List.isPrefixOf?, eq_comm]
  | cons c p ih =>
    cases s with
    | nil => simp [List.isPrefixOf?]
    | cons d s =>
      simp only [List.isPrefixOf?, List.cons_append, List.cons.injEq, Option.ite_none_right_eq_some, beq_iff_eq, ih]
      exact and_congr_left fun _ => eq_comm

theorem running_eq {W : WordClass} {cs x n rest : List Char} (h : running W cs = some (x, n, rest)) :
    cs = opening ++ (x ++ (middle ++ (n ++ ')' :: rest))) ∧ IsWord W.token x ∧ IsWord Char.isDigit n := by
  obtain ⟨r, hr, h⟩ := Option.bind_eq_some_iff.mp h
  split_ifs at h with hx
  obtain ⟨t, ht, h⟩ := Option.bind_eq_some_iff.mp h
  split_ifs at h with hn
  split at h
  · rename_i after hafter
    cases h
    rw [isPrefixOf?_eq_some] at hr ht
    refine ⟨?_, ⟨by simpa using hx, List.all_eq_true.mp List.all_takeWhile⟩,
      ⟨by simpa using hn, List.all_eq_true.mp List.all_takeWhile⟩⟩
    rw [← hafter, List.takeWhile_append_dropWhile, ← ht, List.takeWhile_append_dropWhile, hr]
  · cases h

def search (W : WordClass) : List Char → Option (List Char × List Char)
  | [] => none
  | c :: cs =>
    match running W (c :: cs) with
    | some (x, n, _) => some (x, n)
    | none => search W cs

structure Binding where
  sessionId : List Char
  pid : List Char
  recordedPid : List Char
  deriving DecidableEq

abbrev Bindings := PyDict (List Char) Binding

inductive BindError
  | typeError
  | value (message : String)
  deriving DecidableEq

def field (message : List (List Char × Json)) (key : String) : Json :=
  ((message.find? fun e => e.1 = key.toList).map Prod.snd).getD .null

def isTool (message : List (List Char × Json)) : Bool :=
  match field message "role" with
  | .str s => s = "tool".toList
  | _ => false

def hashable : Json → Bool
  | .arr _ | .obj _ => false
  | _ => true

def observe : List Json → Except BindError (List (Json × List (List Char × Json)))
  | [] => .ok []
  | .obj message :: rest =>
    if isTool message then
      if hashable (field message "tool_call_id") then
        (observe rest).map ((field message "tool_call_id", message) :: ·)
      else .error .typeError
    else observe rest
  | _ :: rest => observe rest

def register (result : Bindings) (old : List Char × List Char) (new : List Char × List Char) :
    Except BindError Bindings :=
  let binding : Binding := ⟨new.1, new.2, old.2⟩
  if (result.get? old.1).any fun b => b ≠ binding then
    .error (.value "OpenClaw background session changed identity within one run")
  else if result.entries.any fun e => e.1 ≠ old.1 ∧ e.2.sessionId = new.1 then
    .error (.value "two recorded background sessions map to one process")
  else .ok (result.set old.1 binding)

section Bind

-- `eq` is `==` of two hashable values, by which a dict finds its keys
variable (W : WordClass) (eq : Json → Json → Bool)

def bindMessage (observed : List (Json × List (List Char × Json))) (result : Bindings) :
    Json → Except BindError Bindings
  | .obj message =>
    if !isTool message then .ok result
    else if !hashable (field message "tool_call_id") then .error .typeError
    else
      match observed.reverse.find? fun e => eq e.1 (field message "tool_call_id") with
      | none => .ok result
      | some counterpart =>
        match field message "content", field counterpart.2 "content" with
        | .str before, .str after =>
          match search W before, search W after with
          | some old, some new => register result old new
          | _, _ => .ok result
        | _, _ => .ok result
  | _ => .ok result

def bindProcessSessions (bindings : Bindings) : Json → Json → Except BindError Bindings
  | .arr expected, .arr actual =>
    (observe actual).bind fun observed => expected.foldlM (bindMessage W eq observed) bindings
  | _, _ => .ok bindings

def bindStep (bindings : Bindings) (l : Json × Json) : Bindings × Option BindError :=
  match bindProcessSessions W eq bindings l.1 l.2 with
  | .ok result => (result, none)
  | .error e => (bindings, some e)

def system : System Bindings ((Json × Json) × Option BindError) :=
  .ofNext (fun B => B = ∅) fun B l => some (bindStep W eq B l)

end Bind

section Rebind

variable (W : WordClass) (B : Bindings)

def subRunning : List Char → List Char
  | [] => []
  | c :: cs =>
    match _h : running W (c :: cs) with
    | some (x, n, rest) =>
      opening ++ (x ++ (middle ++ (((B.get? x).map Binding.pid).getD n ++ ')' :: subRunning rest)))
    | none => c :: subRunning cs
  termination_by cs => cs.length
  decreasing_by
    · rw [(running_eq _h).1]
      simp only [List.length_append, List.length_cons]
      omega
    · simp

def subSessions : Option Char → List Char → List Char
  | _, [] => []
  | prev, c :: cs =>
    if prev.any W.token then c :: subSessions (some c) cs
    else
      match B.entries.find? fun e => e.1.isPrefixOf (c :: cs) && !((c :: cs).drop e.1.length).head?.any W.token with
      | some (_ :: k, b) => b.sessionId ++ subSessions (some (k.getLast?.getD c)) (cs.drop k.length)
      | _ => c :: subSessions (some c) cs
  termination_by _ cs => cs.length
  decreasing_by all_goals simp; try omega

def rebindText (s : List Char) : List Char := if B.entries.isEmpty then s else subSessions W B none (subRunning W B s)

mutual

def rebindProcessSessions : Json → Json
  | .arr items => .arr (rebindItems items)
  | .obj members => .obj (rebindMembers members)
  | .str s => .str (rebindText W B s)
  | v => v

def rebindItems : List Json → List Json
  | [] => []
  | v :: items => rebindProcessSessions v :: rebindItems items

def rebindMembers : List (List Char × Json) → List (List Char × Json)
  | [] => []
  | (key, v) :: members => (key, rebindProcessSessions v) :: rebindMembers members

end

end Rebind

end ClawBox.Replay
