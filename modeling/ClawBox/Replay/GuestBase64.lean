import Mathlib

namespace ClawBox.Replay.GuestBase64

inductive Fault where
  | read (i : ℕ)
  | write (i : ℕ)
  deriving DecidableEq

/-- An allocation; a cell that was never written holds nothing. -/
abbrev Cells := List (Option UInt8)

def malloc (size : ℕ) : Cells := List.replicate size none

def readAt (input : List UInt8) (i : ℕ) : Except Fault UInt8 :=
  if i ≤ input.length then .ok (input[i]?.getD 0) else .error (.read i)

def writeAt (output : Cells) (i : ℕ) (v : UInt8) : Except Fault Cells :=
  if i < output.length then .ok (output.set i (some v)) else .error (.write i)

def writeAll (output : Cells) (written : ℕ) : List UInt8 → Except Fault Cells
  | [] => .ok output
  | v :: vs =>
    match writeAt output written v with
    | .error e => .error e
    | .ok output => writeAll output (written + 1) vs

def table : List UInt8 :=
  "ABCDEFGHIJKLMNOPQRSTUVWXYZabcdefghijklmnopqrstuvwxyz0123456789+/".toList.map fun c => UInt8.ofNat c.toNat

def pad : UInt8 := 61

/-- `strchr` also finds the terminator of the table. -/
def base64Value (v : UInt8) : Option ℕ :=
  let match_ := (table ++ [0]).idxOf v
  if match_ < (table ++ [0]).length then some match_ else none

def valueOrPad (v : UInt8) : Option ℕ := if v = pad then some 0 else base64Value v

def groupBytes (c₂ c₃ : UInt8) (group : ℕ) : List UInt8 :=
  [UInt8.ofNat (group >>> 16)] ++ (if c₂ ≠ pad then [UInt8.ofNat (group >>> 8)] else []) ++
    (if c₃ ≠ pad then [UInt8.ofNat group] else [])

def decodeGroup (c₀ c₁ c₂ c₃ : UInt8) (more : Bool) : Option (List UInt8) :=
  match base64Value c₀, base64Value c₁, valueOrPad c₂, valueOrPad c₃ with
  | some a, some b, some c, some d =>
    if (c₂ = pad ∧ more = true) ∨ (c₃ = pad ∧ more = true) then none
    else some (groupBytes c₂ c₃ ((a <<< 18) ||| (b <<< 12) ||| (c <<< 6) ||| d))
  | _, _, _, _ => none

def readQuad (input : List UInt8) (i : ℕ) : Except Fault (UInt8 × UInt8 × UInt8 × UInt8) :=
  match readAt input i, readAt input (i + 1), readAt input (i + 2), readAt input (i + 3) with
  | .ok c₀, .ok c₁, .ok c₂, .ok c₃ => .ok (c₀, c₁, c₂, c₃)
  | .error e, _, _, _ | _, .error e, _, _ | _, _, .error e, _ | _, _, _, .error e => .error e

def decodeLoop (input : List UInt8) (i written : ℕ) (output : Cells) : Except Fault (Option (Cells × ℕ)) :=
  if i < input.length then
    match readQuad input i with
    | .error e => .error e
    | .ok (c₀, c₁, c₂, c₃) =>
      match decodeGroup c₀ c₁ c₂ c₃ (i + 4 ≠ input.length) with
      | none => .ok none
      | some bytes =>
        match writeAll output written bytes with
        | .error e => .error e
        | .ok output => decodeLoop input (i + 4) (written + bytes.length) output
  else .ok (some (output, written))
termination_by input.length - i

/-- The allocation and its length, or `NULL`; `available` tells which sizes `malloc` can give. -/
def base64Decode (available : ℕ → Bool) (input : List UInt8) : Except Fault (Option (Cells × ℕ)) :=
  if input.length = 0 ∨ input.length % 4 ≠ 0 then .ok none
  else
    match readAt input (input.length - 1), readAt input (input.length - 2) with
    | .error e, _ | _, .error e => .error e
    | .ok last, .ok before =>
      let padding := (if last = pad then 1 else 0) + (if before = pad then 1 else 0)
      let size := input.length / 4 * 3 - padding + 1
      if available size = false then .ok none
      else
        match decodeLoop input 0 0 (malloc size) with
        | .error e => .error e
        | .ok none => .ok none
        | .ok (some (output, written)) =>
          match writeAt output written 0 with
          | .error e => .error e
          | .ok output => .ok (some (output, written))

def encodeGroup (a : UInt8) (b c : Option UInt8) : List UInt8 :=
  let group := (a.toNat <<< 16) ||| ((b.getD 0).toNat <<< 8) ||| (c.getD 0).toNat
  let at_ := fun i => table.getD (i &&& 63) 0
  [at_ (group >>> 18), at_ (group >>> 12), if b.isSome then at_ (group >>> 6) else pad,
    if c.isSome then at_ group else pad]

def encodeLoop (output : Cells) (target : ℕ) : List UInt8 → Except Fault Cells
  | [] => writeAt output target 0
  | [a] =>
    match writeAll output target (encodeGroup a none none) with
    | .error e => .error e
    | .ok output => writeAt output (target + 4) 0
  | [a, b] =>
    match writeAll output target (encodeGroup a (some b) none) with
    | .error e => .error e
    | .ok output => writeAt output (target + 4) 0
  | a :: b :: c :: rest =>
    match writeAll output target (encodeGroup a (some b) (some c)) with
    | .error e => .error e
    | .ok output => encodeLoop output (target + 4) rest

def base64Encode (available : ℕ → Bool) (input : List UInt8) : Except Fault (Option Cells) :=
  let size := (input.length + 2) / 3 * 4 + 1
  if available size = false then .ok none
  else
    match encodeLoop (malloc size) 0 input with
    | .error e => .error e
    | .ok output => .ok (some output)

section Groups

theorem table_eq : table = [65, 66, 67, 68, 69, 70, 71, 72, 73, 74, 75, 76, 77, 78, 79, 80, 81, 82, 83, 84, 85, 86, 87,
    88, 89, 90, 97, 98, 99, 100, 101, 102, 103, 104, 105, 106, 107, 108, 109, 110, 111, 112, 113, 114, 115, 116, 117,
    118, 119, 120, 121, 122, 48, 49, 50, 51, 52, 53, 54, 55, 56, 57, 43, 47] := rfl

theorem table_length : table.length = 64 := by
  rw [table_eq]
  rfl

theorem table_facts : ∀ v ∈ table, v ≠ pad ∧ v ≠ 0 := by
  rw [table_eq]
  decide +kernel

theorem base64Value_table : ∀ i < 64, base64Value (table.getD i 0) = some i := by
  simp only [base64Value, table_eq]
  decide +kernel

theorem base64Value_of_mem {v : UInt8} (h : v ∈ table) : base64Value v = some (table.idxOf v) := by
  have hlt : table.idxOf v < (table ++ [0]).length := by
    rw [List.length_append]
    have := List.idxOf_lt_length_iff.2 h
    omega
  simp only [base64Value, List.idxOf_append_of_mem h, if_pos hlt]

theorem mem_of_base64Value {v : UInt8} (hv : v ≠ 0) {a : ℕ} (h : base64Value v = some a) : v ∈ table := by
  simp only [base64Value] at h
  split_ifs at h with hlt
  have hmem := List.idxOf_lt_length_iff.1 hlt
  simpa [hv] using hmem

theorem sextets {a b c d : ℕ} (hb : b < 2 ^ 6) (hc : c < 2 ^ 6) (hd : d < 2 ^ 6) :
    (a <<< 18) ||| (b <<< 12) ||| (c <<< 6) ||| d = a * 262144 + b * 4096 + c * 64 + d := by
  have h₁ : (a <<< 18) ||| (b <<< 12) = ((a <<< 6) + b) <<< 12 := by
    rw [Nat.shiftLeft_add_eq_or_of_lt hb a, Nat.shiftLeft_or_distrib, ← Nat.shiftLeft_add]
  have h₂ : (((a <<< 6) + b) <<< 12) ||| (c <<< 6) = ((((a <<< 6) + b) <<< 6) + c) <<< 6 := by
    rw [Nat.shiftLeft_add_eq_or_of_lt hc ((a <<< 6) + b), Nat.shiftLeft_or_distrib, ← Nat.shiftLeft_add]
  rw [h₁, h₂, ← Nat.shiftLeft_add_eq_or_of_lt hd]
  simp only [Nat.shiftLeft_eq]
  omega

theorem octets {a b c : ℕ} (hb : b < 2 ^ 8) (hc : c < 2 ^ 8) :
    (a <<< 16) ||| (b <<< 8) ||| c = a * 65536 + b * 256 + c := by
  have h₁ : (a <<< 16) ||| (b <<< 8) = ((a <<< 8) + b) <<< 8 := by
    rw [Nat.shiftLeft_add_eq_or_of_lt hb a, Nat.shiftLeft_or_distrib, ← Nat.shiftLeft_add]
  rw [h₁, ← Nat.shiftLeft_add_eq_or_of_lt hc]
  simp only [Nat.shiftLeft_eq]
  omega

end Groups

@[simp] def decodeText : List UInt8 → Option (List UInt8)
  | c₀ :: c₁ :: c₂ :: c₃ :: rest =>
    match decodeGroup c₀ c₁ c₂ c₃ (rest ≠ []) with
    | none => none
    | some bytes => (decodeText rest).map fun more => bytes ++ more
  | _ => some []

@[simp] def encodeText : List UInt8 → List UInt8
  | [] => []
  | [a] => encodeGroup a none none
  | [a, b] => encodeGroup a (some b) none
  | a :: b :: c :: rest => encodeGroup a (some b) (some c) ++ encodeText rest

def pads (c₂ c₃ : UInt8) : ℕ := (if c₃ = pad then 1 else 0) + (if c₂ = pad then 1 else 0)

@[simp] def space : List UInt8 → ℕ
  | _ :: _ :: c₂ :: c₃ :: rest => if rest = [] then 3 - pads c₂ c₃ else 3 + space rest
  | _ => 0

theorem pads_le (c₂ c₃ : UInt8) : pads c₂ c₃ ≤ 2 := by
  unfold pads
  split_ifs <;> omega

section Memory

theorem readAt_append (pre suf : List UInt8) {j : ℕ} (hj : j ≤ suf.length) :
    readAt (pre ++ suf) (pre.length + j) = .ok (suf[j]?.getD 0) := by
  have hle : pre.length + j ≤ (pre ++ suf).length := by
    rw [List.length_append]
    omega
  rw [readAt, if_pos hle, List.getElem?_append_right (by omega), Nat.add_sub_cancel_left]

theorem writeAt_next (done : List UInt8) (v : UInt8) (c : Option UInt8) (free : Cells) :
    writeAt (done.map some ++ c :: free) done.length v = .ok ((done ++ [v]).map some ++ free) := by
  have hlt : done.length < (done.map some ++ c :: free).length := by
    simp only [List.length_append, List.length_map, List.length_cons]
    omega
  have hset : (done.map some ++ c :: free).set done.length (some v) = (done ++ [v]).map some ++ free := by
    have := List.set_append_right (s := done.map some) (t := c :: free) done.length (some v) (by simp)
    rw [this]
    simp
  rw [writeAt, if_pos hlt, hset]

theorem writeAll_next (done bytes : List UInt8) (free : Cells) (h : bytes.length ≤ free.length) :
    writeAll (done.map some ++ free) done.length bytes = .ok ((done ++ bytes).map some ++ free.drop bytes.length) := by
  induction bytes generalizing done free with
  | nil => simp [writeAll]
  | cons v vs ih =>
    cases free with
    | nil => simp at h
    | cons c free =>
      rw [writeAll, writeAt_next]
      simp only
      have hlen : done.length + 1 = (done ++ [v]).length := by simp
      rw [hlen, ih (done ++ [v]) free (by simpa using h), List.append_assoc]
      rfl

theorem groupBytes_length (c₂ c₃ : UInt8) (group : ℕ) : (groupBytes c₂ c₃ group).length = 3 - pads c₂ c₃ := by
  rw [groupBytes, pads]
  by_cases h₂ : c₂ = pad
  · by_cases h₃ : c₃ = pad
    · simp [h₂, h₃]
    · simp [h₂, h₃]
  · by_cases h₃ : c₃ = pad
    · simp [h₂, h₃]
    · simp [h₂, h₃]

theorem decodeGroup_length {c₀ c₁ c₂ c₃ : UInt8} {more : Bool} {bytes : List UInt8}
    (h : decodeGroup c₀ c₁ c₂ c₃ more = some bytes) :
    bytes.length = 3 - pads c₂ c₃ ∧ (more = true → pads c₂ c₃ = 0) := by
  unfold decodeGroup at h
  split at h
  · split_ifs at h with hpad
    rw [← Option.some.inj h, groupBytes_length]
    refine ⟨rfl, ?_⟩
    intro hmore
    have h₂ : c₂ ≠ pad := fun heq => hpad (.inl ⟨heq, hmore⟩)
    have h₃ : c₃ ≠ pad := fun heq => hpad (.inr ⟨heq, hmore⟩)
    simp [pads, h₂, h₃]
  · cases h

theorem readQuad_append (pre : List UInt8) (c₀ c₁ c₂ c₃ : UInt8) (rest : List UInt8) :
    readQuad (pre ++ c₀ :: c₁ :: c₂ :: c₃ :: rest) pre.length = .ok (c₀, c₁, c₂, c₃) := by
  have h₀ := readAt_append pre (c₀ :: c₁ :: c₂ :: c₃ :: rest) (j := 0) (by simp)
  have h₁ := readAt_append pre (c₀ :: c₁ :: c₂ :: c₃ :: rest) (j := 1) (by simp)
  have h₂ := readAt_append pre (c₀ :: c₁ :: c₂ :: c₃ :: rest) (j := 2) (by simp)
  have h₃ := readAt_append pre (c₀ :: c₁ :: c₂ :: c₃ :: rest) (j := 3) (by simp)
  rw [Nat.add_zero] at h₀
  simp only [readQuad, h₀, h₁, h₂, h₃]
  rfl

@[elab_as_elim]
theorem groups_induction {motive : (text : List UInt8) → text.length % 4 = 0 → Prop} (nil : motive [] rfl)
    (group : ∀ c₀ c₁ c₂ c₃ rest hrest h, motive rest hrest → motive (c₀ :: c₁ :: c₂ :: c₃ :: rest) h) :
    ∀ (text : List UInt8) (h : text.length % 4 = 0), motive text h
  | [], _ => nil
  | [_], h | [_, _], h | [_, _, _], h => by simp at h
  | c₀ :: c₁ :: c₂ :: c₃ :: rest, h => by
    have hrest : rest.length % 4 = 0 := by
      simp only [List.length_cons] at h
      omega
    exact group c₀ c₁ c₂ c₃ rest hrest h (groups_induction nil group rest hrest)

theorem decodeText_cons {c₀ c₁ c₂ c₃ : UInt8} {rest bytes : List UInt8}
    (h : decodeGroup c₀ c₁ c₂ c₃ (decide (rest ≠ [])) = some bytes) :
    decodeText (c₀ :: c₁ :: c₂ :: c₃ :: rest) = (decodeText rest).map fun more => bytes ++ more := by
  rw [decodeText, h]

theorem space_cons {c₀ c₁ c₂ c₃ : UInt8} {rest bytes : List UInt8}
    (h : decodeGroup c₀ c₁ c₂ c₃ (decide (rest ≠ [])) = some bytes) :
    space (c₀ :: c₁ :: c₂ :: c₃ :: rest) = bytes.length + space rest := by
  obtain ⟨hbytes, hpads⟩ := decodeGroup_length h
  rw [space, hbytes]
  by_cases hrest : rest = []
  · simp [hrest, space]
  · rw [if_neg hrest, hpads (by simpa using hrest)]

theorem decodeLoop_spec {suf : List UInt8} (hlen : suf.length % 4 = 0) (pre done : List UInt8) (free : Cells)
    (hfree : free.length = space suf + 1) :
    decodeLoop (pre ++ suf) pre.length done.length (done.map some ++ free) =
      .ok ((decodeText suf).map fun bytes =>
        ((done ++ bytes).map some ++ free.drop bytes.length, done.length + bytes.length)) := by
  induction suf, hlen using groups_induction generalizing pre done free with
  | nil =>
    rw [decodeLoop, if_neg (by simp)]
    simp [decodeText]
  | group c₀ c₁ c₂ c₃ rest hrest hlen ih =>
    have hmore : decide (pre.length + 4 ≠ (pre ++ c₀ :: c₁ :: c₂ :: c₃ :: rest).length) = decide (rest ≠ []) := by
      congr 1
      rw [← List.length_pos_iff]
      simp only [List.length_append, List.length_cons, eq_iff_iff]
      omega
    rw [decodeLoop, if_pos (by simp), readQuad_append]
    simp only [hmore]
    cases hgroup : decodeGroup c₀ c₁ c₂ c₃ (decide (rest ≠ [])) with
    | none =>
      rw [decodeText, hgroup]
      rfl
    | some bytes =>
      have hspace := space_cons hgroup
      simp only
      rw [writeAll_next done bytes free (by omega)]
      simp only
      have hpre : pre.length + 4 = (pre ++ [c₀, c₁, c₂, c₃]).length := by simp
      have hdone : done.length + bytes.length = (done ++ bytes).length := by simp
      have htext : pre ++ c₀ :: c₁ :: c₂ :: c₃ :: rest = (pre ++ [c₀, c₁, c₂, c₃]) ++ rest := by simp
      rw [hpre, hdone, htext, ih (pre ++ [c₀, c₁, c₂, c₃]) (done ++ bytes) (free.drop bytes.length)
        (by rw [List.length_drop]; omega), decodeText_cons hgroup]
      cases decodeText rest with
      | none => rfl
      | some more => simp [List.drop_drop, Nat.add_assoc]

theorem decodeText_length {text bytes : List UInt8} (hlen : text.length % 4 = 0) (h : decodeText text = some bytes) :
    bytes.length = space text := by
  induction text, hlen using groups_induction generalizing bytes with
  | nil =>
    rw [← Option.some.inj h]
    rfl
  | group c₀ c₁ c₂ c₃ rest hrest hlen ih =>
    cases hgroup : decodeGroup c₀ c₁ c₂ c₃ (decide (rest ≠ [])) with
    | none =>
      rw [decodeText, hgroup] at h
      cases h
    | some group =>
      rw [decodeText_cons hgroup] at h
      obtain ⟨more, hmore, rfl⟩ := Option.map_eq_some_iff.1 h
      rw [List.length_append, ih hmore, space_cons hgroup]

theorem space_eq {text init : List UInt8} {x y : UInt8} (hlen : text.length % 4 = 0) (hend : text = init ++ [x, y]) :
    text.length / 4 * 3 - pads x y = space text := by
  induction text, hlen using groups_induction generalizing init with
  | nil => simp at hend
  | group c₀ c₁ c₂ c₃ rest hrest hlen ih =>
    have hle := pads_le x y
    cases rest with
    | nil =>
      have hlast : init = [c₀, c₁] ∧ c₂ = x ∧ c₃ = y := by
        have hsplit : [c₀, c₁] ++ [c₂, c₃] = init ++ [x, y] := hend
        obtain ⟨hinit, htwo⟩ := List.append_inj' hsplit rfl
        simp only [List.cons.injEq, and_true] at htwo
        exact ⟨hinit.symm, htwo⟩
      rw [space, if_pos rfl, hlast.2.1, hlast.2.2]
      simp
    | cons d rest =>
      rw [space, if_neg (by simp)]
      have hinit : ∃ init', d :: rest = init' ++ [x, y] := by
        have hlong := congrArg List.length hend
        simp only [List.length_append, List.length_cons, List.length_nil] at hlong hrest
        match init, hend with
        | [], _ | [_], _ | [_, _], _ | [_, _, _], _ =>
          simp only [List.length_cons, List.length_nil] at hlong
          omega
        | _ :: _ :: _ :: _ :: init', h =>
          simp only [List.cons_append, List.cons.injEq] at h
          exact ⟨init', h.2.2.2.2⟩
      obtain ⟨init', h'⟩ := hinit
      have := ih h'
      simp only [List.length_cons] at this hlen ⊢
      omega

theorem exists_last_two {text : List UInt8} (hne : text ≠ []) (hlen : text.length % 4 = 0) :
    ∃ init x y, text = init ++ [x, y] := by
  have hpos := List.length_pos_iff.2 hne
  have htwo : (text.drop (text.length - 2)).length = 2 := by
    rw [List.length_drop]
    omega
  obtain ⟨x, y, hdrop⟩ := List.length_eq_two.1 htwo
  exact ⟨text.take (text.length - 2), x, y, by rw [← hdrop, List.take_append_drop]⟩

theorem base64Decode_spec (available : ℕ → Bool) {text : List UInt8} (hne : text ≠ []) (hlen : text.length % 4 = 0) :
    base64Decode available text = .ok (if available (space text + 1) = false then none
      else (decodeText text).map fun bytes => ((bytes ++ [0]).map some, bytes.length)) := by
  obtain ⟨init, x, y, hend⟩ := exists_last_two hne hlen
  have hlength : text.length = init.length + 2 := by rw [hend]; simp
  have hlast : readAt text (text.length - 1) = .ok y := by
    have := readAt_append init [x, y] (j := 1) (by simp)
    rw [← hend] at this
    rw [show text.length - 1 = init.length + 1 by omega, this]
    rfl
  have hbefore : readAt text (text.length - 2) = .ok x := by
    have := readAt_append init [x, y] (j := 0) (by simp)
    rw [← hend] at this
    rw [show text.length - 2 = init.length + 0 by omega, this]
    rfl
  have hsize : text.length / 4 * 3 - ((if y = pad then 1 else 0) + (if x = pad then 1 else 0)) = space text :=
    space_eq hlen hend
  have hloop := decodeLoop_spec hlen [] [] (malloc (space text + 1)) (by simp [malloc])
  simp only [List.nil_append, List.length_nil, List.map_nil, Nat.zero_add] at hloop
  rw [base64Decode, if_neg (by simp [hne, hlen])]
  simp only [hlast, hbefore, hsize]
  by_cases hav : available (space text + 1) = false
  · rw [if_pos hav, if_pos hav]
  · rw [if_neg hav, if_neg hav, hloop]
    cases htext : decodeText text with
    | none => rfl
    | some bytes =>
      have hbytes := decodeText_length hlen htext
      have hrest : (malloc (space text + 1)).drop bytes.length = [none] := by
        rw [malloc, List.drop_replicate, hbytes, Nat.add_sub_cancel_left]
        rfl
      simp only [Option.map_some, hrest]
      rw [writeAt_next bytes 0 none []]
      simp

theorem encodeGroup_length (a : UInt8) (b c : Option UInt8) : (encodeGroup a b c).length = 4 := rfl

theorem encodeText_length (input : List UInt8) : (encodeText input).length = (input.length + 2) / 3 * 4 := by
  induction input using encodeText.induct with
  | case1 => rfl
  | case2 a => simp [encodeText, encodeGroup_length]
  | case3 a b => simp [encodeText, encodeGroup_length]
  | case4 a b c rest ih =>
    simp only [encodeText, List.length_append, encodeGroup_length, ih, List.length_cons]
    omega

theorem encodeLoop_spec (input done : List UInt8) (free : Cells) (h : free.length = (encodeText input).length + 1) :
    encodeLoop (done.map some ++ free) done.length input = .ok ((done ++ encodeText input ++ [0]).map some) := by
  have hend : ∀ (done : List UInt8) (free : Cells), free.length = 1 →
      writeAt (done.map some ++ free) done.length 0 = .ok ((done ++ [0]).map some) := by
    intro done free hfree
    obtain ⟨c, rfl⟩ := List.length_eq_one_iff.1 hfree
    rw [writeAt_next, List.append_nil]
  have hgroup : ∀ (done group : List UInt8) (free : Cells), group.length = 4 → free.length = 5 →
      ∃ output, writeAll (done.map some ++ free) done.length group = .ok output ∧
        writeAt output (done.length + 4) 0 = .ok ((done ++ group ++ [0]).map some) := by
    intro done group free hlen hfree
    refine ⟨_, writeAll_next done group free (by omega), ?_⟩
    have := hend (done ++ group) (free.drop group.length) (by rw [List.length_drop]; omega)
    rw [List.length_append, hlen] at this
    rw [hlen]
    exact this
  induction input using encodeText.induct generalizing done free with
  | case1 =>
    rw [encodeLoop, encodeText, List.append_nil]
    exact hend done free h
  | case2 a =>
    obtain ⟨output, hw, hz⟩ := hgroup done (encodeGroup a none none) free rfl h
    rw [encodeLoop, hw]
    exact hz
  | case3 a b =>
    obtain ⟨output, hw, hz⟩ := hgroup done (encodeGroup a (some b) none) free rfl h
    rw [encodeLoop, hw]
    exact hz
  | case4 a b c rest ih =>
    simp only [encodeText, List.length_append, encodeGroup_length] at h
    rw [encodeLoop, writeAll_next _ _ _ (by rw [encodeGroup_length]; omega)]
    simp only
    have hdone : done.length + 4 = (done ++ encodeGroup a (some b) (some c)).length := by
      rw [List.length_append, encodeGroup_length]
    rw [hdone, ih _ _ (by rw [List.length_drop, encodeGroup_length]; omega), encodeText]
    simp only [List.append_assoc]

theorem base64Encode_spec (available : ℕ → Bool) (input : List UInt8) :
    base64Encode available input = .ok (if available ((input.length + 2) / 3 * 4 + 1) = false then none
      else some ((encodeText input ++ [0]).map some)) := by
  have hloop := encodeLoop_spec input [] (malloc ((input.length + 2) / 3 * 4 + 1)) (by simp [malloc, encodeText_length])
  simp only [List.nil_append, List.length_nil, List.map_nil] at hloop
  simp only [base64Encode, hloop]
  split_ifs <;> rfl

end Memory

section Codec

theorem encoded_mem (i : ℕ) : table.getD (i &&& 63) 0 ∈ table := by
  have hlt : i &&& 63 < table.length := by
    rw [table_length]
    exact Nat.lt_of_le_of_lt Nat.and_le_right (show 63 < 64 by omega)
  rw [List.getD_eq_getElem _ _ hlt]
  exact List.getElem_mem hlt

theorem valueOrPad_of_mem {v : UInt8} (h : v ∈ table) : valueOrPad v = base64Value v := by
  rw [valueOrPad, if_neg (table_facts v h).1]

theorem valueOrPad_pad : valueOrPad pad = some 0 := if_pos rfl

theorem value_encoded (i : ℕ) : base64Value (table.getD (i &&& 63) 0) = some (i % 64) := by
  have hmod : i &&& 63 = i % 64 := Nat.and_two_pow_sub_one_eq_mod i 6
  rw [hmod]
  exact base64Value_table (i % 64) (Nat.mod_lt _ (by omega))

theorem ofNat_eq {x : ℕ} {v : UInt8} (h : x % 256 = v.toNat) : UInt8.ofNat x = v := by
  apply UInt8.toNat_inj.1
  rw [UInt8.toNat_ofNat']
  exact h

theorem decodeGroup_encodeGroup (a : UInt8) (b c : Option UInt8) (hbc : b = none → c = none) (more : Bool)
    (hmore : more = true → c ≠ none) :
    ∃ c₀ c₁ c₂ c₃, encodeGroup a b c = [c₀, c₁, c₂, c₃] ∧
    decodeGroup c₀ c₁ c₂ c₃ more = some (a :: b.toList ++ c.toList) := by
  refine ⟨_, _, _, _, rfl, ?_⟩
  have ha := a.toNat_lt
  have hb := (b.getD 0).toNat_lt
  have hc := (c.getD 0).toNat_lt
  rw [octets hb hc]
  generalize hg : a.toNat * 65536 + (b.getD 0).toNat * 256 + (c.getD 0).toNat = g
  have hlow : ∀ n, n % 64 < 2 ^ 6 := fun n => Nat.mod_lt _ (by omega)
  have hpad : ∀ i, table.getD (i &&& 63) 0 ≠ pad := fun i => (table_facts _ (encoded_mem i)).1
  cases b with
  | none =>
    obtain rfl := hbc rfl
    have hmore' : more = false := by
      cases more with
      | false => rfl
      | true => exact absurd rfl (hmore rfl)
    simp only [Option.getD_none, UInt8.toNat_zero] at hg
    simp only [Option.isSome_none, Bool.false_eq_true, if_false, decodeGroup, value_encoded, valueOrPad_pad, hmore',
      and_false, or_self]
    rw [sextets (hlow _) (by omega) (by omega)]
    simp only [groupBytes, ne_eq, not_true, if_false, List.append_nil, Option.toList_none,
      Option.some.injEq, List.cons.injEq, and_true]
    apply ofNat_eq
    simp only [Nat.shiftRight_eq_div_pow]
    omega
  | some b =>
    simp only [Option.getD_some] at hg hb
    cases c with
    | none =>
      have hmore' : more = false := by
        cases more with
        | false => rfl
        | true => exact absurd rfl (hmore rfl)
      simp only [Option.getD_none, UInt8.toNat_zero, Nat.add_zero] at hg
      simp only [Option.isSome_some, Option.isSome_none, Bool.false_eq_true, if_false, if_true, decodeGroup,
        value_encoded, valueOrPad_of_mem (encoded_mem _), valueOrPad_pad, hmore', and_false, or_self]
      rw [sextets (hlow _) (hlow _) (by omega)]
      simp only [groupBytes, ne_eq, hpad, not_true, not_false_eq_true, if_false, if_true, List.append_nil,
        Option.toList_none, Option.toList_some, List.cons_append, List.nil_append, Option.some.injEq, List.cons.injEq,
        and_true]
      refine ⟨ofNat_eq ?_, ofNat_eq ?_⟩
      · simp only [Nat.shiftRight_eq_div_pow]
        omega
      · simp only [Nat.shiftRight_eq_div_pow]
        omega
    | some c =>
      simp only [Option.getD_some] at hg hc
      simp only [Option.isSome_some, if_true, decodeGroup, value_encoded, valueOrPad_of_mem (encoded_mem _), hpad,
        false_and, or_self, if_false]
      rw [sextets (hlow _) (hlow _) (hlow _)]
      simp only [groupBytes, ne_eq, hpad, not_false_eq_true, if_true, Option.toList_some,
        List.cons_append, List.nil_append, Option.some.injEq, List.cons.injEq, and_true]
      refine ⟨ofNat_eq ?_, ofNat_eq ?_, ofNat_eq ?_⟩
      · simp only [Nat.shiftRight_eq_div_pow]
        omega
      · simp only [Nat.shiftRight_eq_div_pow]
        omega
      · simp only [Nat.shiftRight_eq_div_pow]
        omega

theorem decodeText_encodeText (input : List UInt8) : decodeText (encodeText input) = some input := by
  induction input using encodeText.induct with
  | case1 => rfl
  | case2 a =>
    obtain ⟨c₀, c₁, c₂, c₃, henc, hdec⟩ :=
      decodeGroup_encodeGroup a none none (by simp) (decide (([] : List UInt8) ≠ [])) (by simp)
    rw [encodeText, henc, decodeText_cons hdec]
    rfl
  | case3 a b =>
    obtain ⟨c₀, c₁, c₂, c₃, henc, hdec⟩ :=
      decodeGroup_encodeGroup a (some b) none (by simp) (decide (([] : List UInt8) ≠ [])) (by simp)
    rw [encodeText, henc, decodeText_cons hdec]
    rfl
  | case4 a b c rest ih =>
    obtain ⟨c₀, c₁, c₂, c₃, henc, hdec⟩ :=
      decodeGroup_encodeGroup a (some b) (some c) (by simp) (decide (encodeText rest ≠ [])) (by simp)
    rw [encodeText, henc]
    simp only [List.cons_append, List.nil_append]
    rw [decodeText_cons hdec, ih]
    rfl

theorem decodeGroup_isSome {c₀ c₁ c₂ c₃ : UInt8} (h₀ : c₀ ≠ 0) (h₁ : c₁ ≠ 0) (h₂ : c₂ ≠ 0) (h₃ : c₃ ≠ 0) (more : Bool) :
    (∃ bytes, decodeGroup c₀ c₁ c₂ c₃ more = some bytes) ↔ c₀ ∈ table ∧ c₁ ∈ table ∧ (c₂ ∈ table ∨ c₂ = pad) ∧
      (c₃ ∈ table ∨ c₃ = pad) ∧ (more = true → c₂ ≠ pad ∧ c₃ ≠ pad) := by
  have hvalue : ∀ {v : UInt8}, v ≠ 0 → ∀ {n}, valueOrPad v = some n → v ∈ table ∨ v = pad := by
    intro v hv n hn
    by_cases hpad : v = pad
    · exact .inr hpad
    · rw [valueOrPad, if_neg hpad] at hn
      exact .inl (mem_of_base64Value hv hn)
  have hsome : ∀ {v : UInt8}, v ∈ table ∨ v = pad → ∃ n, valueOrPad v = some n := by
    intro v hv
    cases hv with
    | inl hmem => exact ⟨_, (valueOrPad_of_mem hmem).trans (base64Value_of_mem hmem)⟩
    | inr hpad => exact ⟨0, hpad ▸ valueOrPad_pad⟩
  constructor
  · rintro ⟨bytes, h⟩
    unfold decodeGroup at h
    split at h
    · rename_i a b c d ha hb hc hd
      split_ifs at h with hpad
      refine ⟨mem_of_base64Value h₀ ha, mem_of_base64Value h₁ hb, hvalue h₂ hc, hvalue h₃ hd, ?_⟩
      intro hmore
      exact ⟨fun heq => hpad (.inl ⟨heq, hmore⟩), fun heq => hpad (.inr ⟨heq, hmore⟩)⟩
    · cases h
  · rintro ⟨m₀, m₁, m₂, m₃, hpads⟩
    obtain ⟨c, hc⟩ := hsome m₂
    obtain ⟨d, hd⟩ := hsome m₃
    have hpad : ¬ ((c₂ = pad ∧ more = true) ∨ (c₃ = pad ∧ more = true)) := by
      rintro (⟨heq, hmore⟩ | ⟨heq, hmore⟩)
      · exact (hpads hmore).1 heq
      · exact (hpads hmore).2 heq
    exact ⟨_, by simp only [decodeGroup, base64Value_of_mem m₀, base64Value_of_mem m₁, hc, hd, if_neg hpad]; rfl⟩

theorem decodeText_isSome {text : List UInt8} (hlen : text.length % 4 = 0) (hne : text ≠ []) (hnul : 0 ∉ text) :
    (∃ bytes, decodeText text = some bytes) ↔ ∃ init x y, text = init ++ [x, y] ∧ (∀ c ∈ init, c ∈ table) ∧
      (x ∈ table ∨ x = pad) ∧ (y ∈ table ∨ y = pad) := by
  induction text, hlen using groups_induction with
  | nil => exact absurd rfl hne
  | group c₀ c₁ c₂ c₃ rest hrest hlen ih =>
    simp only [List.mem_cons, not_or] at hnul
    obtain ⟨h₀, h₁, h₂, h₃, hnul⟩ := hnul
    have hgroup := decodeGroup_isSome (Ne.symm h₀) (Ne.symm h₁) (Ne.symm h₂) (Ne.symm h₃) (decide (rest ≠ []))
    have hcons : (∃ bytes, decodeText (c₀ :: c₁ :: c₂ :: c₃ :: rest) = some bytes) ↔
        (∃ bytes, decodeGroup c₀ c₁ c₂ c₃ (decide (rest ≠ [])) = some bytes) ∧ ∃ bytes,
        decodeText rest = some bytes := by
      rw [decodeText]
      cases decodeGroup c₀ c₁ c₂ c₃ (decide (rest ≠ [])) with
      | none => simp
      | some group => simp
    rw [hcons, hgroup]
    by_cases hnil : rest = []
    · subst hnil
      have hempty : ∃ bytes, decodeText [] = some bytes := ⟨[], rfl⟩
      simp only [hempty, and_true, ne_eq, not_true, decide_false, Bool.false_eq_true, false_implies]
      constructor
      · rintro ⟨m₀, m₁, m₂, m₃⟩
        exact ⟨[c₀, c₁], c₂, c₃, rfl, by simp [m₀, m₁], m₂, m₃⟩
      · rintro ⟨init, x, y, hend, hinit, hx, hy⟩
        have hsplit : [c₀, c₁] ++ [c₂, c₃] = init ++ [x, y] := hend
        obtain ⟨rfl, htwo⟩ := List.append_inj' hsplit rfl
        simp only [List.cons.injEq, and_true] at htwo
        obtain ⟨rfl, rfl⟩ := htwo
        exact ⟨hinit c₀ (by simp), hinit c₁ (by simp), hx, hy⟩
    · rw [ih hnil hnul]
      simp only [ne_eq, hnil, not_false_eq_true, decide_true, true_implies]
      constructor
      · rintro ⟨⟨m₀, m₁, m₂, m₃, hpad₂, hpad₃⟩, init, x, y, rfl, hinit, hx, hy⟩
        refine ⟨c₀ :: c₁ :: c₂ :: c₃ :: init, x, y, rfl, ?_, hx, hy⟩
        simp only [List.mem_cons, forall_eq_or_imp]
        exact ⟨m₀, m₁, m₂.resolve_right hpad₂, m₃.resolve_right hpad₃, hinit⟩
      · rintro ⟨init, x, y, hend, hinit, hx, hy⟩
        have hlong := congrArg List.length hend
        have hpos := List.length_pos_iff.2 hnil
        simp only [List.length_append, List.length_cons, List.length_nil] at hlong hrest
        have hfour : 4 ≤ init.length := by omega
        obtain ⟨d₀, d₁, d₂, d₃, init', rfl⟩ : ∃ d₀ d₁ d₂ d₃ init', init = d₀ :: d₁ :: d₂ :: d₃ :: init' := by
          rcases init with _ | ⟨d₀, _ | ⟨d₁, _ | ⟨d₂, _ | ⟨d₃, init'⟩⟩⟩⟩
          · simp at hfour
          · simp at hfour
          · simp at hfour
          · simp at hfour
          · exact ⟨d₀, d₁, d₂, d₃, init', rfl⟩
        simp only [List.cons_append, List.cons.injEq] at hend
        obtain ⟨rfl, rfl, rfl, rfl, rfl⟩ := hend
        simp only [List.mem_cons, forall_eq_or_imp] at hinit
        obtain ⟨m₀, m₁, m₂, m₃, hinit⟩ := hinit
        exact ⟨⟨m₀, m₁, .inl m₂, .inl m₃, (table_facts _ m₂).1, (table_facts _ m₃).1⟩, init', x, y, rfl, hinit, hx, hy⟩

def WellFormed (text : List UInt8) : Prop :=
  text ≠ [] ∧ text.length % 4 = 0 ∧ ∃ body k, k ≤ 2 ∧ text = body ++ List.replicate k pad ∧ ∀ c ∈ body, c ∈ table

/-- The last character but one is a pad, and the last one is not. -/
def StrayPad (text : List UInt8) : Prop :=
  text.length % 4 = 0 ∧ ∃ init y, text = init ++ [pad, y] ∧ y ∈ table ∧ ∀ c ∈ init, c ∈ table

def Accepts (available : ℕ → Bool) (text : List UInt8) : Prop :=
  ∃ output written, base64Decode available text = .ok (some (output, written))

theorem pad_not_mem : pad ∉ table := fun h => (table_facts pad h).1 rfl

theorem not_wellFormed_of_strayPad {text : List UInt8} (h : StrayPad text) : ¬ WellFormed text := by
  obtain ⟨_, init, y, hend, hy, _⟩ := h
  rintro ⟨_, _, body, k, hk, htext, hbody⟩
  have hlast : ∀ n, text ≠ body ++ List.replicate (n + 1) pad := by
    intro n heq
    rw [hend, List.replicate_succ', ← List.append_assoc, show init ++ [pad, y] = (init ++ [pad]) ++ [y] by simp] at heq
    have := (List.append_inj' heq rfl).2
    simp only [List.cons.injEq, and_true] at this
    exact pad_not_mem (this ▸ hy)
  cases k with
  | zero =>
    rw [hend, List.replicate_zero, List.append_nil] at htext
    exact pad_not_mem (hbody pad (by simp [← htext]))
  | succ n => exact hlast n htext

theorem accepts_iff {available : ℕ → Bool} (hav : ∀ n, available n = true) {text : List UInt8} (hnul : 0 ∉ text) :
    Accepts available text ↔ WellFormed text ∨ StrayPad text := by
  by_cases hshape : text ≠ [] ∧ text.length % 4 = 0
  · obtain ⟨hne, hlen⟩ := hshape
    have haccepts : Accepts available text ↔ ∃ bytes, decodeText text = some bytes := by
      rw [Accepts, base64Decode_spec available hne hlen, if_neg (by simp [hav])]
      cases decodeText text with
      | none => simp
      | some bytes => simp
    rw [haccepts, decodeText_isSome hlen hne hnul]
    constructor
    · rintro ⟨init, x, y, rfl, hinit, hx, hy⟩
      have hbody : ∀ {v}, v ∈ table → ∀ c ∈ init ++ [v], c ∈ table := by
        intro v hv c hc
        cases List.mem_append.1 hc with
        | inl hmem => exact hinit c hmem
        | inr heq => exact List.mem_singleton.1 heq ▸ hv
      rcases hx with hx | rfl
      · rcases hy with hy | rfl
        · refine .inl ⟨hne, hlen, init ++ [x, y], 0, by omega, by simp, ?_⟩
          intro c hc
          rw [show init ++ [x, y] = (init ++ [x]) ++ [y] by simp] at hc
          cases List.mem_append.1 hc with
          | inl hmem => exact hbody hx c hmem
          | inr heq => exact List.mem_singleton.1 heq ▸ hy
        · exact .inl ⟨hne, hlen, init ++ [x], 1, by omega, by simp, hbody hx⟩
      · rcases hy with hy | rfl
        · exact .inr ⟨hlen, init, y, rfl, hy, hinit⟩
        · exact .inl ⟨hne, hlen, init, 2, by omega, rfl, hinit⟩
    · rintro (⟨_, _, body, k, hk, htext, hbody⟩ | ⟨_, init, y, htext, hy, hinit⟩)
      · obtain ⟨init, x, y, hend⟩ := exists_last_two hne hlen
        have hall : ∀ c ∈ text, c ∈ table ∨ c = pad := by
          intro c hc
          rw [htext] at hc
          cases List.mem_append.1 hc with
          | inl hmem => exact .inl (hbody c hmem)
          | inr hmem => exact .inr (List.eq_of_mem_replicate hmem)
        refine ⟨init, x, y, hend, ?_, hall x (by simp [hend]), hall y (by simp [hend])⟩
        have hpre : init <+: body := by
          have hlength := congrArg List.length (hend.symm.trans htext)
          simp only [List.length_append, List.length_replicate, List.length_cons, List.length_nil] at hlength
          exact List.prefix_of_prefix_length_le (hend ▸ List.prefix_append _ _) (htext ▸ List.prefix_append _ _)
            (by omega)
        exact fun c hc => hbody c (hpre.subset hc)
      · exact ⟨init, pad, y, htext, hinit, .inr rfl, .inl hy⟩
  · have hnull : base64Decode available text = .ok none := by
      rw [base64Decode, if_pos]
      rw [not_and_or, not_not] at hshape
      exact hshape.imp (fun h => by rw [h]; rfl) id
    constructor
    · rintro ⟨output, written, h⟩
      rw [hnull] at h
      cases Except.ok.inj h
    · rintro (⟨hne, hlen, _⟩ | ⟨hlen, init, y, htext, _⟩)
      · exact absurd ⟨hne, hlen⟩ hshape
      · exact absurd ⟨by simp [htext], hlen⟩ hshape

theorem encodeText_nul_free (input : List UInt8) : 0 ∉ encodeText input := by
  have hgroup : ∀ a b c, (0 : UInt8) ∉ encodeGroup a b c := by
    intro a b c h
    have hne : ∀ i, table.getD (i &&& 63) 0 ≠ 0 := fun i => (table_facts _ (encoded_mem i)).2
    have hpad : (0 : UInt8) ≠ pad := by decide
    simp only [encodeGroup, List.mem_cons, List.not_mem_nil, or_false] at h
    rcases h with h | h | h | h
    · exact hne _ h.symm
    · exact hne _ h.symm
    · split_ifs at h
      · exact hne _ h.symm
      · exact hpad h
    · split_ifs at h
      · exact hne _ h.symm
      · exact hpad h
  induction input using encodeText.induct with
  | case1 => simp [encodeText]
  | case2 a => exact hgroup a none none
  | case3 a b => exact hgroup a (some b) none
  | case4 a b c rest ih =>
    rw [encodeText, List.mem_append, not_or]
    exact ⟨hgroup a (some b) (some c), ih⟩

/-- `base64_decode` undoes `base64_encode`, stays inside its memory on every string, and takes the well-formed texts
and no others unless a text ends in a pad and a character. -/
theorem guest_base64_codec {available : ℕ → Bool} (hav : ∀ n, available n = true) :
    (∀ input ≠ [], ∃ encoded, base64Encode available input = .ok (some ((encoded ++ [0]).map some)) ∧ 0 ∉ encoded ∧
      base64Decode available encoded = .ok (some ((input ++ [0]).map some, input.length))) ∧
    (∀ (available' : ℕ → Bool) text, 0 ∉ text → ∃ r, base64Decode available' text = .ok r) ∧
    (∀ text, 0 ∉ text → ((Accepts available text ↔ WellFormed text) ↔ ¬ StrayPad text)) := by
  refine ⟨?_, ?_, ?_⟩
  · intro input hne
    have hlength := encodeText_length input
    have hpos := List.length_pos_iff.2 hne
    have hencoded : encodeText input ≠ [] := by
      rw [← List.length_pos_iff]
      omega
    refine ⟨encodeText input, ?_, encodeText_nul_free input, ?_⟩
    · rw [base64Encode_spec, if_neg (by simp [hav])]
    · rw [base64Decode_spec available hencoded (by omega), if_neg (by simp [hav]), decodeText_encodeText]
      rfl
  · intro available' text _
    by_cases hshape : text.length = 0 ∨ text.length % 4 ≠ 0
    · exact ⟨none, by rw [base64Decode, if_pos hshape]⟩
    · rw [not_or, not_not] at hshape
      exact ⟨_, base64Decode_spec available' (by rw [← List.length_pos_iff]; omega) hshape.2⟩
  · intro text hnul
    rw [accepts_iff hav hnul]
    have hdisjoint : StrayPad text → ¬ WellFormed text := not_wellFormed_of_strayPad
    tauto

theorem guest_base64_codec_abc :
    ∃ encoded, base64Encode (fun _ => true) [97, 98, 99] = .ok (some ((encoded ++ [0]).map some)) ∧ 0 ∉ encoded ∧
      base64Decode (fun _ => true) encoded = .ok (some ((([97, 98, 99] : List UInt8) ++ [0]).map some, 3)) :=
  (guest_base64_codec (fun _ => rfl)).1 [97, 98, 99] (by decide)

theorem stray_pad_accepted :
    base64Decode (fun _ => true) [65, 66, 61, 67] = .ok (some ([some 0, some 2, some 0], 2)) ∧
      ¬ (Accepts (fun _ => true) [65, 66, 61, 67] ↔ WellFormed [65, 66, 61, 67]) := by
  have hdecode : base64Decode (fun _ => true) [65, 66, 61, 67] = .ok (some ([some 0, some 2, some 0], 2)) := by
    rw [base64Decode_spec _ (by decide) (by decide)]
    decide +kernel
  have hstray : StrayPad [65, 66, 61, 67] := ⟨by decide, [65, 66], 67, rfl, by decide +kernel, by decide +kernel⟩
  refine ⟨hdecode, ?_⟩
  intro h
  exact not_wellFormed_of_strayPad hstray (h.1 ⟨_, _, hdecode⟩)

end Codec

end ClawBox.Replay.GuestBase64
