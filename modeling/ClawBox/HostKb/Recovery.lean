import ClawBox.HostKb.Scope

namespace ClawBox.HostKb

open JsonText Transition

variable {kb : Kb}

section Writers

theorem field_eq_ok {v w : Value} {k : String} : field v k = .ok w ↔ v.get? k = some w := by
  rw [field]
  cases v.get? k <;> simp

theorem textField_eq_ok {v : Value} {k : String} {s : Text} : textField v k = .ok s ↔
    (v.get? k).bind Value.str? = some s := by
  rw [textField]
  cases (v.get? k).bind Value.str? <;> simp

theorem bind_eq_ok {α β : Type} {x : Except Refusal α} {f : α → Except Refusal β} {b : β} :
    (x >>= f) = .ok b ↔ ∃ a, x = .ok a ∧ f a = .ok b := by
  cases x <;> simp [bind, Except.bind]

theorem refuseIf_eq_ok {c : Prop} [Decidable c] {m : String} {u : Unit} : refuseIf c m = .ok u ↔ ¬ c := by
  by_cases hc : c
  · simp [refuseIf, refuse, hc]
  · simp [refuseIf, hc, pure, Except.pure]

theorem claim_cases {s : Scope kb} {r : ClaimRequest} {t : Transaction kb} (h : claim s r = .ok t) :
    (∃ existing selected, s.book.claims.get? r.executionId = some existing ∧
      existing.get? "receipt_hash" = some (.str (kb.sha256 r.predictionReceipt)) ∧
      existing.get? "command_sha256" = some r.commandSha256 ∧ existing.get? "selected" = some selected ∧
      t = .answer (.selection selected)) ∨
    ∃ item, s.book.claims.get? r.executionId = none ∧
      (s.cache.receipts.get? (kb.sha256 r.predictionReceipt)).bind s.cache.predictions.get? = some item ∧
      item.commandSha256 = r.commandSha256 ∧ item.command = r.command ∧
      (item.executionId = none ∨ item.executionId = some r.executionId) ∧
      t = .commit (item.claimRow r.executionId (kb.sha256 r.predictionReceipt))
        ⟨s.book.claimed r.executionId item.callKey (item.claimRow r.executionId (kb.sha256 r.predictionReceipt)),
          s.cache.claimed item r.executionId⟩ (.selection item.selected) := by
  unfold claim at h
  simp only at h
  cases hclaim : s.book.claims.get? r.executionId with
  | some existing =>
    left
    rw [hclaim] at h
    simp only [bind_eq_ok, field_eq_ok, refuseIf_eq_ok, not_or, not_not] at h
    obtain ⟨_, ⟨hreceipt, hcommand⟩, selected, hselected, ht⟩ := h
    exact ⟨existing, selected, rfl, hreceipt, hcommand, hselected, (Except.ok.inj ht).symm⟩
  | none =>
    right
    rw [hclaim] at h
    cases hitem : (s.cache.receipts.get? (kb.sha256 r.predictionReceipt)).bind s.cache.predictions.get? with
    | none =>
      rw [hitem] at h
      cases h
    | some item =>
      rw [hitem] at h
      simp only [bind_eq_ok, refuseIf_eq_ok, not_or, not_not, not_and_or] at h
      obtain ⟨_, ⟨hsha, hcommand⟩, _, hexecution, ht⟩ := h
      exact ⟨item, rfl, rfl, hsha, hcommand, hexecution, (Except.ok.inj ht).symm⟩

theorem predict_cases {b : Binding} {s t : Scope kb} {p response : Value} {receipt : Text}
    (h : predict b s p receipt = .ok (t, response)) :
    (∃ key previous, s.cache.predictions.get? key = some previous ∧ t = s ∧ response = previous.response) ∨
      ∃ item, s.cache.predictions.get? item.callKey = none ∧ s.book.claimedCalls.get? item.callKey = none ∧
        item.executionId = none ∧ response = item.response ∧
        t = { s with cache := ⟨s.cache.predictions.set item.callKey item,
          s.cache.receipts.set (kb.sha256 receipt) item.callKey⟩ } := by
  unfold predict at h
  simp only [bind_eq_ok] at h
  obtain ⟨_, -, _, -, key, -, h⟩ := h
  cases hprevious : s.cache.predictions.get? key with
  | some previous =>
    left
    rw [hprevious] at h
    simp only [bind_eq_ok] at h
    obtain ⟨_, -, h⟩ := h
    cases h
    exact ⟨key, previous, hprevious, rfl, rfl⟩
  | none =>
    right
    rw [hprevious] at h
    simp only [bind_eq_ok, refuseIf_eq_ok, Bool.not_eq_true, Option.isSome_eq_false_iff, Option.isNone_iff_eq_none] at h
    obtain ⟨_, hunclaimed, h⟩ := h
    cases hpred : kb.predictions s.book.view s.book.observedMemoryMeasurement p with
    | none =>
      rw [hpred] at h
      cases h
    | some prediction =>
      rw [hpred] at h
      simp only [bind_eq_ok] at h
      obtain ⟨command, -, sha, -, toolName, -, h⟩ := h
      cases h
      exact ⟨⟨digest kb p, prediction.response receipt, prediction.selected, command, sha, toolName, key, none,
        prediction.bindings⟩, hprevious, hunclaimed, rfl, rfl, rfl⟩

theorem predict_book {b : Binding} {s t : Scope kb} {p response : Value} {receipt : Text}
    (h : predict b s p receipt = .ok (t, response)) : t.book = s.book := by
  rcases predict_cases h with ⟨_, _, -, rfl, -⟩ | ⟨_, -, -, -, -, rfl⟩
  · rfl
  · rfl

theorem lesson_spec {b : Binding} {book : Book kb} {p : Value} {l : Lesson kb} (h : lesson b book p = .ok l) :
    (p.get? "execution_id").bind Value.str? = some l.executionId ∧
      (∃ claim, book.claims.get? l.executionId = some claim ∧ claim.get? "receipt_hash" = some (.str l.receiptHash)) ∧
      ∃ callValue clausesValue clauses, p.get? "call" = some callValue ∧ p.get? "clauses" = some clausesValue ∧
        learningRecords kb callValue clausesValue = some (l.call, clauses) := by
  unfold lesson at h
  simp only [bind_eq_ok, textField_eq_ok] at h
  obtain ⟨_, -, _, -, executionId, hid, receipt, -, h⟩ := h
  cases hclaim : book.claims.get? executionId with
  | none =>
    rw [hclaim] at h
    cases h
  | some claim =>
    rw [hclaim] at h
    simp only [bind_eq_ok, field_eq_ok, refuseIf_eq_ok, not_or, not_not] at h
    obtain ⟨_, ⟨-, hreceipt⟩, callValue, hcall, clausesValue, hclauses, h⟩ := h
    cases hrecords : learningRecords kb callValue clausesValue with
    | none =>
      rw [hrecords] at h
      cases h
    | some records =>
      rw [hrecords] at h
      simp only [bind_eq_ok, field_eq_ok] at h
      obtain ⟨_, -, bindings, -, hl⟩ := h
      obtain rfl := Except.ok.inj hl
      exact ⟨hid, ⟨claim, hclaim, hreceipt⟩, callValue, clausesValue, records.2, hcall, hclauses, hrecords⟩

theorem observe_cases {b : Binding} {s : Scope kb} {p : Value} {t : Transaction kb} (h : observe b s p = .ok t) :
    ∃ l, lesson b s.book p = .ok l ∧
      ((∃ previous, s.book.committed.get? l.executionId = some previous ∧
        previous.1 = .str (digest kb (normalized p l.clauses)) ∧
        t = .answer (.observation true previous.2 (digest kb (normalized p l.clauses)))) ∨
      s.book.committed.get? l.executionId = none ∧
        ∃ next, next = s.book.observed l.executionId l.call l.clauses (.str (digest kb (normalized p l.clauses))) ∧
          t = .commit (observeRow kb (l.durable p) (digest kb (normalized p l.clauses)) (kb.generation next.view))
            { s with book := next }
            (.observation false (.num (kb.generation next.view)) (digest kb (normalized p l.clauses)))) := by
  unfold observe at h
  rw [bind_eq_ok] at h
  obtain ⟨l, hl, h⟩ := h
  refine ⟨l, hl, ?_⟩
  cases hprevious : s.book.committed.get? l.executionId with
  | some previous =>
    left
    rw [hprevious] at h
    simp only [bind_eq_ok, refuseIf_eq_ok, not_not] at h
    obtain ⟨_, hdigest, ht⟩ := h
    exact ⟨previous, rfl, hdigest, (Except.ok.inj ht).symm⟩
  | none =>
    right
    rw [hprevious] at h
    exact ⟨rfl, _, rfl, (Except.ok.inj h).symm⟩

end Writers

section Rows

theorem get?_claimRow (item : Item) (executionId receiptHash : Text) (k : String) :
    (item.claimRow executionId receiptHash).get? k =
      (List.find? (·.1 = k) [("kind", .str "claim".toList), ("execution_id", .str executionId),
        ("receipt_hash", .str receiptHash), ("command", item.command), ("command_sha256", item.commandSha256),
        ("tool_name", item.toolName), ("call_key", .str item.callKey), ("selected", item.selected),
        ("bindings", item.bindings)]).map Prod.snd :=
  Value.get?_record (by simp) k

theorem get?_observeRow (durable : Value) (wireDigest : Text) (generation : ℕ) (k : String) :
    (observeRow kb durable wireDigest generation).get? k =
      (List.find? (·.1 = k) [("kind", .str "observe".toList), ("payload", durable),
        ("payload_digest", .str (digest kb durable)), ("wire_digest", .str wireDigest),
        ("generation", .num generation)]).map Prod.snd :=
  Value.get?_record (by simp) k

theorem get?_degradedRow (executionId reason : Text) (k : String) :
    (degradedRow executionId reason).get? k =
      (List.find? (·.1 = k) [("kind", .str "degraded".toList), ("execution_id", .str executionId),
        ("reason", .str (reason.take 1024))]).map Prod.snd :=
  Value.get?_record (by simp) k

theorem kind_ne {k k' : String} (h : k ≠ k') : Value.str k.toList ≠ .str k'.toList := by
  rw [Ne, Value.str_inj, String.toList_inj]
  exact h

theorem replay_claimRow {b : Book kb} {item : Item} {executionId receiptHash : Text}
    (h : b.claims.get? executionId = none) :
    replay b (item.claimRow executionId receiptHash) =
      some (b.claimed executionId item.callKey (item.claimRow executionId receiptHash)) := by
  have hkind : (item.claimRow executionId receiptHash).get? "kind" = some (.str "claim".toList) := by
    rw [get?_claimRow]
    simp
  have hid : (item.claimRow executionId receiptHash).get? "execution_id" = some (.str executionId) := by
    rw [get?_claimRow]
    simp
  have hkey : (item.claimRow executionId receiptHash).get? "call_key" = some (.str item.callKey) := by
    rw [get?_claimRow]
    simp
  unfold replay
  rw [hkind, hid, hkey]
  simp only [Option.bind_eq_bind, Option.bind_some, Value.str?_str, h, if_pos]
  rfl

theorem replay_degradedRow (b : Book kb) (executionId reason : Text) :
    replay b (degradedRow executionId reason) = some { b with degraded := true } := by
  have hkind : (degradedRow executionId reason).get? "kind" = some (.str "degraded".toList) := by
    rw [get?_degradedRow]
    simp
  unfold replay
  rw [hkind]
  simp only [Option.bind_eq_bind, Option.bind_some]
  rw [if_neg (kind_ne (by decide)), if_neg (kind_ne (by decide)), if_pos trivial]
  rfl

/-- `ClauseObservation` made from what `asdict` gives of one is this one. -/
def Kb.Faithful (kb : Kb) : Prop := ∀ c, record kb.clauseFields kb.clause (kb.asdict c) = some (some c)

theorem learningRecords_asdict (hkb : kb.Faithful) {callValue clausesValue : Value} {call : Option kb.Call}
    {clauses : List kb.Clause} (h : learningRecords kb callValue clausesValue = some (call, clauses))
    (written : List kb.Clause) : learningRecords kb callValue (.arr (written.map kb.asdict)) =
    some (call, written) := by
  unfold learningRecords at h ⊢
  simp only [Option.bind_eq_bind, Option.bind_eq_some_iff] at h
  obtain ⟨c, hcall, rows, -, l, -, hout⟩ := h
  obtain ⟨rfl, -⟩ := Prod.mk.inj (Option.some.inj hout)
  have hrows : (written.map kb.asdict).mapM (fun row => (record kb.clauseFields kb.clause row).join) =
      some written := by
    induction written with
    | nil => rfl
    | cons w written ih => simp [hkb w, ih]
  simp only [hcall, Option.bind_eq_bind, Option.bind_some, Value.items?_arr, hrows]
  rfl

theorem replay_observeRow (hkb : kb.Faithful) {b : Binding} {book : Book kb} {p : Value} {l : Lesson kb}
    (hl : lesson b book p = .ok l) (hnew : book.committed.get? l.executionId = none)
    (hvalid : validateMessage kb (l.durable p) "observe" = .ok ()) (wireDigest : Text) :
    replay book (observeRow kb (l.durable p) wireDigest
        (kb.generation (book.observed l.executionId l.call l.clauses (.str wireDigest)).view)) =
      some (book.observed l.executionId l.call l.clauses (.str wireDigest)) := by
  obtain ⟨hid, ⟨claim, hclaim, -⟩, callValue, clausesValue, clauses, hcall, -, hrecords⟩ := lesson_spec hl
  have hdurable : ∀ k, k ≠ "prediction_receipt" → k ≠ "clauses" → (l.durable p).get? k = p.get? k := by
    intro k hk hk'
    rw [Lesson.durable, Value.get?_set_ne _ hk, normalized, Value.get?_set_ne _ hk']
  have hclauses : (l.durable p).get? "clauses" = some (.arr (l.clauses.map kb.asdict)) := by
    rw [Lesson.durable, Value.get?_set_ne _ (by decide), normalized, Value.get?_set_self]
  have hid' : ((l.durable p).get? "execution_id").bind Value.str? = some l.executionId := by
    rw [hdurable _ (by decide) (by decide), hid]
  have hcall' : (l.durable p).get? "call" = some callValue := by
    rw [hdurable _ (by decide) (by decide), hcall]
  generalize hg : kb.generation (book.observed l.executionId l.call l.clauses (.str wireDigest)).view = g
  have hrow : ∀ k, (observeRow kb (l.durable p) wireDigest g).get? k = _ := get?_observeRow (l.durable p) wireDigest g
  have hkind : (observeRow kb (l.durable p) wireDigest g).get? "kind" = some (.str "observe".toList) := by
    rw [hrow]
    simp
  have hpayload : (observeRow kb (l.durable p) wireDigest g).get? "payload" = some (l.durable p) := by
    rw [hrow]
    simp
  have hdigest : (observeRow kb (l.durable p) wireDigest g).get? "payload_digest" =
      some (.str (digest kb (l.durable p))) := by
    rw [hrow]
    simp
  have hwire : (observeRow kb (l.durable p) wireDigest g).get? "wire_digest" = some (.str wireDigest) := by
    rw [hrow]
    simp
  have hgeneration : (observeRow kb (l.durable p) wireDigest g).get? "generation" = some (.num g) := by
    rw [hrow]
    simp
  unfold replay
  rw [hkind, hpayload, hdigest, hwire, hgeneration]
  simp only [Option.bind_eq_bind, Option.bind_some]
  rw [if_neg (kind_ne (by decide)), if_pos trivial, hvalid, hcall', hclauses, hid']
  simp only [Except.toOption, Option.bind_some, learningRecords_asdict hkb hrecords, hclaim, hnew, hg]
  rw [if_neg (by simp), if_neg (by simp), if_neg (by simp)]
  rfl

end Rows

section Machine

inductive Append
  | works
  -- The file could not be opened.
  | unopened
  -- The write, the flush or the sync raised, and the file was cut back.
  | undone
  -- The same, but cutting it back raised too, and this much of the line is left.
  | left (written : ℕ)
  -- The line is written, and the sync of the directory raised.
  | unsynced
  -- The process dies when this much of the line is written.
  | killed (written : ℕ)

inductive Appended
  | done
  | raised
  | died

def append (journal : Option (List UInt8)) (row : Value) : Append → Appended × Option (List UInt8)
  | .works => (.done, some (journal.getD [] ++ rows.line row))
  | .unopened => (.raised, journal)
  | .undone => (.raised, some (journal.getD []))
  | .left written => (.raised, some (journal.getD [] ++ (rows.line row).take written))
  | .unsynced => (if journal.isNone then .raised else .done, some (journal.getD [] ++ rows.line row))
  | .killed written => (.died, some (journal.getD [] ++ (rows.line row).take written))

/-- What becomes of the file `identity.json`, which nothing cuts back. -/
inductive Save
  | works
  | unopened
  | left (written : ℕ)
  | killed (written : ℕ)

def Binding.right (b : Binding) (file : List UInt8) : Bool := (Utf8.decode file).bind Value.read = some b.identity

def writeIdentity (b : Binding) (identity : Option (List UInt8)) (plan : Save) : Appended × Option (List UInt8) :=
  match identity with
  | some file => (if b.right file then .done else .raised, some file)
  | none =>
    match plan with
    | .works => (.done, some (rows.line b.identity))
    | .unopened => (.raised, none)
    | .left written => (.raised, some ((rows.line b.identity).take written))
    | .killed written => (.died, some ((rows.line b.identity).take written))

structure Host (kb : Kb) where
  identity : Option (List UInt8)
  journal : Option (List UInt8)
  scope : Option (Scope kb)

inductive Action
  | reserve (plan : Save) (truncates : Bool)
  | predict (payload : Value) (receipt : Text)
  | claim (r : ClaimRequest) (plan : Append)
  | observe (payload : Value) (plan : Append)
  | markDegraded (executionId reason : Text) (plan : Append)
  | crash

inductive Reply
  | ready
  | answered (a : Answer)
  | refused (e : Refusal)
  | failed
  | died

namespace Host

def empty : Host kb := ⟨none, none, none⟩

def settle (h : Host kb) (s : Scope kb) (t : Except Refusal (Transaction kb)) (plan : Append) : Host kb × Reply :=
  match t with
  | .error e => (h, .refused e)
  | .ok (.answer a) => (h, .answered a)
  | .ok (.commit row next a) =>
    match append h.journal row plan with
    | (.done, journal) => ({ h with journal := journal, scope := some next }, .answered a)
    | (.raised, journal) => ({ h with journal := journal, scope := some s }, .failed)
    | (.died, journal) => ({ h with journal := journal, scope := none }, .died)

def load (h : Host kb) (truncates : Bool) : Host kb × Reply :=
  match rows.recover replay (Book.new kb) (h.journal.getD []) with
  | none => (h, .failed)
  | some (book, kept) =>
    if kept.length < (h.journal.getD []).length ∧ ¬ truncates then (h, .failed)
    else ({ h with journal := h.journal.map fun _ => kept, scope := some ⟨book, .new⟩ }, .ready)

def next (b : Binding) (h : Host kb) : Action → Option (Host kb × Reply)
  | .reserve plan truncates =>
    match h.scope with
    | some _ => some (h, .ready)
    | none =>
      match writeIdentity b h.identity plan with
      | (.done, identity) => some (load { h with identity := identity } truncates)
      | (.raised, identity) => some ({ h with identity := identity }, .failed)
      | (.died, identity) => some ({ h with identity := identity }, .died)
  | .predict payload receipt => h.scope.map fun s =>
    match predict b s payload receipt with
    | .ok (t, response) => ({ h with scope := some t }, .answered (.prediction response))
    | .error e => (h, .refused e)
  | .claim r plan => h.scope.map fun s => h.settle s (claim s r) plan
  | .observe payload plan => h.scope.map fun s => h.settle s (observe b s payload) plan
  | .markDegraded executionId reason plan => h.scope.map fun s =>
    h.settle s (.ok (markDegraded s executionId reason)) plan
  | .crash => some ({ h with scope := none }, .died)

def system (kb : Kb) (b : Binding) : System (Host kb) (Action × Reply) := .ofNext (· = empty) (next b)

end Host

/-- Nothing is left in the journal by an append that raises. -/
def Append.clean (journal : Option (List UInt8)) : Append → Prop
  | .left _ => False
  | .unsynced => journal ≠ none
  | _ => True

def Readable (t : Except Refusal (Transaction kb)) : Prop :=
  ∀ row next a, t = .ok (.commit row next a) → ∀ payload, row.get? "payload" = some payload →
    validateMessage kb payload "observe" = .ok ()

def Host.orderly (b : Binding) (h : Host kb) (l : Action × Reply) : Prop :=
  match l.1 with
  | .claim _ plan | .markDegraded _ _ plan => plan.clean h.journal
  | .observe payload plan => plan.clean h.journal ∧ ∀ s, h.scope = some s → Readable (observe b s payload)
  | _ => True

/-- What the scope is for: a book that no crash loses, and a cache of the running process; and whether the identity of
the scope, once it is saved, was saved whole. -/
structure Durable (kb : Kb) where
  book : Book kb
  cache : Option Cache
  named : Option Bool

namespace Durable

/-- A transaction is done whole or not at all; one that is cut short by a crash may be either. -/
def settle (d : Durable kb) (t : Except Refusal (Transaction kb)) (reply : Reply) (d' : Durable kb) : Prop :=
  match t with
  | .error e => reply = .refused e ∧ d' = d
  | .ok (.answer a) => reply = .answered a ∧ d' = d
  | .ok (.commit _ next a) =>
    reply = .answered a ∧ d' = ⟨next.book, some next.cache, d.named⟩ ∨ reply = .failed ∧ d' = d ∨
      reply = .died ∧ (d' = ⟨d.book, none, d.named⟩ ∨ d' = ⟨next.book, none, d.named⟩)

def opened (d : Durable kb) (truncates : Bool) (reply : Reply) (d' : Durable kb) : Prop :=
  reply = .ready ∧ d' = ⟨d.book, some .new, some true⟩ ∨
    truncates = false ∧ reply = .failed ∧ d' = ⟨d.book, none, some true⟩

def reserve (b : Binding) (d : Durable kb) (plan : Save) (truncates : Bool) (reply : Reply) (d' : Durable kb) : Prop :=
  match d.cache, d.named, plan with
  | some _, _, _ => reply = .ready ∧ d' = d
  | none, some true, _ => d.opened truncates reply d'
  | none, some false, _ => reply = .failed ∧ d' = d
  | none, none, .works => d.opened truncates reply d'
  | none, none, .unopened => reply = .failed ∧ d' = d
  | none, none, .left written =>
    reply = .failed ∧ d' = ⟨d.book, none, some (b.right ((rows.line b.identity).take written))⟩
  | none, none, .killed written =>
    reply = .died ∧ d' = ⟨d.book, none, some (b.right ((rows.line b.identity).take written))⟩

def step (b : Binding) (d : Durable kb) (l : Action × Reply) (d' : Durable kb) : Prop :=
  match l.1 with
  | .reserve plan truncates => d.reserve b plan truncates l.2 d'
  | .predict payload receipt => ∃ cache, d.cache = some cache ∧
    match predict b ⟨d.book, cache⟩ payload receipt with
    | .ok (s, response) => l.2 = .answered (.prediction response) ∧ d' = ⟨s.book, some s.cache, d.named⟩
    | .error e => l.2 = .refused e ∧ d' = d
  | .claim r _ => ∃ cache, d.cache = some cache ∧ d.settle (HostKb.claim ⟨d.book, cache⟩ r) l.2 d'
  | .observe payload _ => ∃ cache, d.cache = some cache ∧ d.settle (HostKb.observe b ⟨d.book, cache⟩ payload) l.2 d'
  | .markDegraded executionId reason _ => ∃ cache, d.cache = some cache ∧
    d.settle (.ok (HostKb.markDegraded ⟨d.book, cache⟩ executionId reason)) l.2 d'
  | .crash => l.2 = .died ∧ d' = ⟨d.book, none, d.named⟩

def start : Durable kb := ⟨Book.new kb, none, none⟩

def system (kb : Kb) (b : Binding) : System (Durable kb) (Action × Reply) := ⟨(· = start), step b⟩

end Durable

end Machine

section Simulation

def Host.Sound (h : Host kb) (book : Book kb) : Prop :=
  rows.Holds replay (Book.new kb) (h.journal.getD []) book ∧
    ∀ s, h.scope = some s → s.book = book ∧ rows.Whole replay (Book.new kb) (h.journal.getD []) book

def Host.durable (b : Binding) (h : Host kb) : Durable kb :=
  ⟨((rows.recover replay (Book.new kb) (h.journal.getD [])).map Prod.fst).getD (Book.new kb), h.scope.map Scope.cache,
    h.identity.map b.right⟩

theorem Host.Sound.durable {h : Host kb} {book : Book kb} (hs : h.Sound book) (b : Binding) :
    h.durable b = ⟨book, h.scope.map Scope.cache, h.identity.map b.right⟩ := by
  obtain ⟨whole, hrecover, -⟩ := hs.1.recover
  rw [Host.durable, hrecover]
  rfl

theorem claim_replays {s next : Scope kb} {r : ClaimRequest} {row : Value} {a : Answer}
    (h : claim s r = .ok (.commit row next a)) : replay s.book row = some next.book := by
  rcases claim_cases h with ⟨_, _, -, -, -, -, ht⟩ | ⟨item, hnew, -, -, -, -, ht⟩
  · cases ht
  · cases ht
    exact replay_claimRow hnew

theorem observe_replays (hkb : kb.Faithful) {b : Binding} {s next : Scope kb} {p row : Value} {a : Answer}
    (h : observe b s p = .ok (.commit row next a)) (hvalid : Readable (observe b s p)) :
    replay s.book row = some next.book := by
  obtain ⟨l, hl, ⟨_, -, -, ht⟩ | ⟨hnew, _, rfl, ht⟩⟩ := observe_cases h
  · cases ht
  · have hpayload := hvalid _ _ _ h (l.durable p)
    cases ht
    refine replay_observeRow hkb hl hnew (hpayload ?_) _
    rw [get?_observeRow]
    simp

theorem Host.Sound.settle {b : Binding} {h : Host kb} {s : Scope kb} (hs : h.Sound s.book) (hup : h.scope = some s)
    {t : Except Refusal (Transaction kb)} {plan : Append} (hplan : plan.clean h.journal)
    (ht : ∀ row next a, t = .ok (.commit row next a) → replay s.book row = some next.book) :
    ∃ book, (h.settle s t plan).1.Sound book ∧
      Durable.settle ⟨s.book, some s.cache, h.identity.map b.right⟩ t (h.settle s t plan).2
        ⟨book, (h.settle s t plan).1.scope.map Scope.cache, (h.settle s t plan).1.identity.map b.right⟩ := by
  have hwhole := (hs.2 s hup).2
  match t, ht with
  | .error e, _ => exact ⟨s.book, hs, rfl, by rw [Host.settle, hup]; rfl⟩
  | .ok (.answer a), _ => exact ⟨s.book, hs, rfl, by rw [Host.settle, hup]; rfl⟩
  | .ok (.commit row next a), ht =>
    have hrow := ht row next a rfl
    have hdone : (⟨h.identity, some (h.journal.getD [] ++ rows.line row), some next⟩ : Host kb).Sound next.book := by
      refine ⟨(hwhole.append hrow).holds, fun u hu => ?_⟩
      obtain rfl := Option.some.inj hu
      exact ⟨rfl, hwhole.append hrow⟩
    have hsame : ∀ journal, journal.getD [] = h.journal.getD [] →
        (⟨h.identity, journal, some s⟩ : Host kb).Sound s.book := by
      intro journal hj
      refine ⟨by rw [hj]; exact hs.1, fun u hu => ?_⟩
      obtain rfl := Option.some.inj hu
      exact ⟨rfl, by rw [hj]; exact hwhole⟩
    cases plan with
    | works => exact ⟨next.book, hdone, .inl ⟨rfl, rfl⟩⟩
    | unopened => exact ⟨s.book, hsame _ rfl, .inr (.inl ⟨rfl, rfl⟩)⟩
    | undone => exact ⟨s.book, hsame _ rfl, .inr (.inl ⟨rfl, rfl⟩)⟩
    | left written => exact hplan.elim
    | unsynced =>
      have hsome : h.journal.isNone = false := by
        cases hj : h.journal with
        | none => exact absurd hj hplan
        | some file => rfl
      have hset : h.settle s (.ok (.commit row next a)) .unsynced =
          (⟨h.identity, some (h.journal.getD [] ++ rows.line row), some next⟩, .answered a) := by
        rw [Host.settle]
        simp only [append, hsome]
        rfl
      rw [hset]
      exact ⟨next.book, hdone, .inl ⟨rfl, rfl⟩⟩
    | killed written =>
      rcases hwhole.cut hrow written with hbook | hbook
      · exact ⟨s.book, ⟨hbook, fun u hu => by cases hu⟩, .inr (.inr ⟨rfl, .inl rfl⟩)⟩
      · exact ⟨next.book, ⟨hbook, fun u hu => by cases hu⟩, .inr (.inr ⟨rfl, .inr rfl⟩)⟩

theorem Binding.right_line (b : Binding) : b.right (rows.line b.identity) = true := by
  have hline : rows.line b.identity = Utf8.encode (b.identity.text ++ ['\n']) := by
    rw [Utf8.encode_append]
    rfl
  rw [Binding.right, hline, Utf8.decode_encode, Option.bind_some, Value.read_line]
  simp

theorem Host.Sound.load {b : Binding} {h h' : Host kb} {book : Book kb} {file : List UInt8} {truncates : Bool}
    {reply : Reply} (hs : (⟨some file, h.journal, none⟩ : Host kb).Sound book) (hright : b.right file = true)
    (hn : Host.load ⟨some file, h.journal, none⟩ truncates = (h', reply)) {named : Option Bool} :
    ∃ book', h'.Sound book' ∧ Durable.opened ⟨book, none, named⟩ truncates reply
      ⟨book', h'.scope.map Scope.cache, h'.identity.map b.right⟩ := by
  rw [Host.load] at hn
  obtain ⟨whole, hrecover, hwhole⟩ := hs.1.recover
  simp only [hrecover] at hn
  split_ifs at hn with hfails
  · cases hn
    exact ⟨book, hs, .inr ⟨by simpa using hfails.2, rfl, by rw [Option.map_some, hright]; rfl⟩⟩
  · cases hn
    have hkept : (h.journal.map fun _ => whole).getD [] = whole := by
      cases hj : h.journal with
      | some file => rfl
      | none =>
        rw [hj, Option.getD_none] at hrecover
        have hempty : rows.recover replay (Book.new kb) [] = some (Book.new kb, []) := rfl
        rw [hempty] at hrecover
        exact (Prod.mk.inj (Option.some.inj hrecover)).2
    refine ⟨book, ⟨by rw [hkept]; exact hwhole.holds, fun s hscope => ?_⟩,
      .inl ⟨rfl, by simp only [Option.map_some, hright]⟩⟩
    cases hscope
    exact ⟨rfl, by rw [hkept]; exact hwhole⟩

theorem Host.Sound.next (hkb : kb.Faithful) {b : Binding} {h h' : Host kb} {book : Book kb} {l : Action × Reply}
    (hs : h.Sound book) (hn : h.next b l.1 = some (h', l.2)) (ho : h.orderly b l) :
    ∃ book', h'.Sound book' ∧ Durable.step b ⟨book, h.scope.map Scope.cache, h.identity.map b.right⟩ l
      ⟨book', h'.scope.map Scope.cache, h'.identity.map b.right⟩ := by
  obtain ⟨action, reply⟩ := l
  have hup : ∀ {f : Scope kb → Host kb × Reply}, h.scope.map f = some (h', reply) →
      ∃ s, h.scope = some s ∧ s.book = book ∧ f s = (h', reply) := by
    intro f hf
    obtain ⟨s, hscope, hfs⟩ := Option.map_eq_some_iff.1 hf
    exact ⟨s, hscope, (hs.2 s hscope).1, hfs⟩
  cases action with
  | reserve plan truncates =>
    cases hscope : h.scope with
    | some s =>
      rw [Host.next, hscope] at hn
      cases hn
      exact ⟨book, hs, rfl, by rw [hscope]⟩
    | none =>
      rw [Host.next, hscope] at hn
      have hsame : ∀ identity, (⟨identity, h.journal, none⟩ : Host kb).Sound book :=
        fun _ => ⟨hs.1, fun s hs => by cases hs⟩
      cases hidentity : h.identity with
      | some file =>
        by_cases hright : b.right file
        · rw [hidentity] at hn
          simp only [writeIdentity, if_pos hright] at hn
          obtain ⟨book', hsound, hopen⟩ := (hsame (some file)).load hright (Option.some.inj hn)
          refine ⟨book', hsound, ?_⟩
          simpa only [Durable.step, Durable.reserve, Option.map_none, Option.map_some, hright] using hopen
        · rw [hidentity] at hn
          simp only [writeIdentity, if_neg hright] at hn
          cases hn
          refine ⟨book, hsame _, ?_⟩
          rw [Bool.not_eq_true] at hright
          simp [Durable.step, Durable.reserve, hright]
      | none =>
        rw [hidentity] at hn
        cases plan with
        | works => exact (hsame _).load b.right_line (Option.some.inj hn)
        | unopened =>
          cases hn
          exact ⟨book, hsame _, rfl, rfl⟩
        | left written =>
          cases hn
          exact ⟨book, hsame _, rfl, rfl⟩
        | killed written =>
          cases hn
          exact ⟨book, hsame _, rfl, rfl⟩
  | predict payload receipt =>
    obtain ⟨s, hscope, rfl, hs'⟩ := hup hn
    rw [hscope]
    cases hp : predict b s payload receipt with
    | error e =>
      rw [hp] at hs'
      cases hs'
      refine ⟨s.book, hs, s.cache, rfl, ?_⟩
      have hp' : predict b (⟨s.book, s.cache⟩ : Scope kb) payload receipt = .error e := hp
      simp only [hp', hscope, true_and]
    | ok out =>
      rw [hp] at hs'
      cases hs'
      have hbook := predict_book hp
      refine ⟨s.book, ⟨hs.1, fun u hu => ?_⟩, s.cache, rfl, ?_⟩
      · obtain rfl := Option.some.inj hu
        exact ⟨hbook, (hs.2 s hscope).2⟩
      · have hp' : predict b (⟨s.book, s.cache⟩ : Scope kb) payload receipt = .ok out := hp
        simp only [hp', hbook, true_and]
        rfl
  | claim r plan =>
    obtain ⟨s, hscope, rfl, hs'⟩ := hup hn
    obtain ⟨book', hbook', hstep⟩ := hs.settle hscope ho fun row next a ht => claim_replays ht
    rw [hs'] at hbook' hstep
    rw [hscope]
    exact ⟨book', hbook', s.cache, rfl, hstep⟩
  | observe payload plan =>
    obtain ⟨s, hscope, rfl, hs'⟩ := hup hn
    obtain ⟨book', hbook', hstep⟩ := hs.settle hscope ho.1 fun row next a ht => observe_replays hkb ht (ho.2 s hscope)
    rw [hs'] at hbook' hstep
    rw [hscope]
    exact ⟨book', hbook', s.cache, rfl, hstep⟩
  | markDegraded executionId reason plan =>
    obtain ⟨s, hscope, rfl, hs'⟩ := hup hn
    have hrow : ∀ row next a,
        (.ok (markDegraded s executionId reason) : Except Refusal (Transaction kb)) = .ok (.commit row next a) →
          replay s.book row = some next.book := by
      intro row next a ht
      obtain ⟨rfl, rfl, -⟩ := Transaction.commit.inj (Except.ok.inj ht)
      exact replay_degradedRow s.book executionId reason
    obtain ⟨book', hbook', hstep⟩ := hs.settle hscope ho hrow
    rw [hs'] at hbook' hstep
    rw [hscope]
    exact ⟨book', hbook', s.cache, rfl, hstep⟩
  | crash =>
    cases hn
    exact ⟨book, ⟨hs.1, fun s hscope => by cases hscope⟩, rfl, rfl⟩

theorem sound_empty : (Host.empty : Host kb).Sound (Book.new kb) :=
  ⟨Journal.Format.whole_nil.holds, fun s hs => by cases hs⟩

theorem step_sound (hkb : kb.Faithful) {b : Binding} {h h' : Host kb} {l : Action × Reply} (hs : ∃ book, h.Sound book)
    (hstep : ((Host.system kb b).restrict (Host.orderly b)).step h l h') : ∃ book, h'.Sound book := by
  obtain ⟨book, hs⟩ := hs
  obtain ⟨book', hs', -⟩ := hs.next hkb hstep.1 hstep.2
  exact ⟨book', hs'⟩

theorem step_durable (hkb : kb.Faithful) {b : Binding} {h h' : Host kb} {l : Action × Reply} (hs : ∃ book, h.Sound book)
    (hstep : ((Host.system kb b).restrict (Host.orderly b)).step h l h') :
    (Durable.system kb b).step (h.durable b) l (h'.durable b) := by
  obtain ⟨book, hs⟩ := hs
  obtain ⟨book', hs', hd⟩ := hs.next hkb hstep.1 hstep.2
  rw [hs.durable, hs'.durable]
  exact hd

/-- Wherever the process dies and whichever step of an append fails, as long as a failed append leaves nothing behind
and the reader takes the observations that are written: the journal reads as a book that no crash loses, a running
process has this book in its memory, and every run is one of this book, in which an operation is done whole or not at
all. -/
theorem recovery_exact (hkb : kb.Faithful) {b : Binding} {h : Host kb} {ls : List (Action × Reply)}
    (hr : Run ((Host.system kb b).restrict (Host.orderly b)) Host.empty ls h) :
    Run (Durable.system kb b) Durable.start ls (h.durable b) ∧
      (∃ kept, rows.recover replay (Book.new kb) (h.journal.getD []) = some ((h.durable b).book, kept)) ∧
      ∀ s, h.scope = some s → s.book = (h.durable b).book := by
  have hstart : (Host.empty : Host kb).durable b = Durable.start := sound_empty.durable b
  obtain ⟨book, hs⟩ := hr.invariant (I := fun h => ∃ book, h.Sound book) (fun _ _ _ => step_sound hkb) ⟨_, sound_empty⟩
  refine ⟨?_, ?_, ?_⟩
  · rw [← hstart]
    exact hr.map (Host.durable b) (fun _ _ _ => step_sound hkb) (fun _ _ _ => step_durable hkb) ⟨_, sound_empty⟩
  · obtain ⟨whole, hrecover, -⟩ := hs.1.recover
    rw [hs.durable]
    exact ⟨whole, hrecover⟩
  · intro s hscope
    rw [hs.durable]
    exact (hs.2 s hscope).1

structure ListedClause where
  repo : Text
  argv : List Text

def listingKb : Kb where
  View := List (List ListedClause)
  Call := PyDict Text Value
  Clause := ListedClause
  seed := []
  successor v _ clauses := v ++ [clauses]
  generation v := v.length
  sha256 s := PyText.digits (s.foldl (fun n c => (31 * n + c.toNat) % 65521) 0)
  schema kind v := if kind = "observe" ∧ v.get? "clauses" = none then some "'clauses' is a required property" else none
  predictions v _ _ := some ⟨fun receipt => .str receipt, .num v.length, .str "flag".toList⟩
  callFields := ["repo", "command", "tool_name", "imputed_targets"]
  call d := some d
  clauseFields := ["repo", "argv"]
  clause d := do
    let repo ← (d.get? "repo".toList).bind Value.str?
    let argv ← (d.get? "argv".toList).bind Value.items?
    return ⟨repo, ← argv.mapM Value.str?⟩
  asdict c := .record [("repo", .str c.repo), ("argv", .arr (c.argv.map .str))]
  bindObservations bindings l := l.map fun c => { c with argv := c.argv ++ bindings.str?.toList }
  repo d := (d.get? "repo".toList).getD .null
  command d := (d.get? "command".toList).getD .null
  toolName d := (d.get? "tool_name".toList).getD .null
  provenance _ := .str "measured".toList
  memoryEligible _ := true
  censored _ := false
  memoryMeasurement _ := some "guest_memtotal_minus_memavailable".toList
  clauseRepo c := .str c.repo

theorem faithful_listingKb : listingKb.Faithful := by
  intro c
  have hget : ∀ k, (listingKb.asdict c).dict.get? k =
      (List.find? (·.1 = String.ofList k) [("repo", .str c.repo), ("argv", .arr (c.argv.map .str))]).map Prod.snd := by
    intro k
    have h := Value.get?_record (l := [("repo", .str c.repo), ("argv", .arr (c.argv.map .str))]) (by simp)
      (String.ofList k)
    rwa [Value.get?, String.toList_ofList] at h
  have hkeys : (listingKb.asdict c).dict.keys.any (fun k => !(listingKb.clauseFields.map String.toList).contains k) =
      false := by
    rw [List.any_eq_false]
    intro k hk
    rw [PyDict.mem_keys, hget, Option.isSome_map, List.find?_isSome] at hk
    have hname : k = "repo".toList ∨ k = "argv".toList := by
      simp only [List.mem_cons, List.not_mem_nil, or_false, exists_eq_or_imp, exists_eq_left, decide_eq_true_eq] at hk
      rcases hk with hk | hk
      · exact .inl (by rw [hk, String.toList_ofList])
      · exact .inr (by rw [hk, String.toList_ofList])
    rcases hname with rfl | rfl <;> decide
  have hrepo : (listingKb.asdict c).dict.get? "repo".toList = some (.str c.repo) := by
    rw [hget]
    rfl
  have hargv : (listingKb.asdict c).dict.get? "argv".toList = some (.arr (c.argv.map .str)) := by
    rw [hget]
    rfl
  have himputed : (listingKb.asdict c).dict.get? "imputed_targets".toList = none := by
    rw [hget]
    rfl
  have htexts : (c.argv.map Value.str).mapM Value.str? = some c.argv := by
    induction c.argv with
    | nil => rfl
    | cons a argv ih => simp [ih]
  obtain ⟨l, hobj⟩ : ∃ l, (listingKb.asdict c).json = .obj l := ⟨_, Value.json_obj _⟩
  generalize listingKb.asdict c = v at *
  have htupled : tupled (.arr (c.argv.map .str)) = some (.arr (c.argv.map .str)) := rfl
  have hneArgv : "imputed_targets".toList ≠ "argv".toList := by decide
  have hneRepo : "repo".toList ≠ "argv".toList := by decide
  have hclause : listingKb.clause (v.dict.set "argv".toList (.arr (c.argv.map .str))) = some c := by
    simp only [listingKb, PyDict.get?_set_self, PyDict.get?_set_ne _ _ hneRepo, hrepo, Option.bind_eq_bind,
      Option.bind_some, Value.str?_str, Value.items?_arr, htexts]
    rfl
  unfold record
  rw [hobj]
  simp only [hkeys, List.foldlM_cons, List.foldlM_nil, hargv, htupled, Option.map_some, Option.bind_eq_bind,
    Option.bind_some, PyDict.get?_set_ne _ _ hneArgv, himputed, Option.pure_def, hclause]
  rfl

def listingBinding : Binding :=
  ⟨.record [("run_id", .str "r".toList), ("memory_measurement", .str "m".toList)], .str "s".toList,
    .str "django".toList, .str "m".toList⟩

def listingMessage (more : List (String × Value)) : Value :=
  .record ([("session_id", .str "s".toList), ("repository", .str "django".toList),
    ("memory_measurement", .str "m".toList), ("command", .str "ls".toList),
    ("command_sha256", .str (listingKb.sha256 "ls".toList)), ("tool_name", .str "bash".toList)] ++
    more)

def listingClaim (execution receipt : Text) : ClaimRequest :=
  ⟨execution, receipt, .str "ls".toList, .str (listingKb.sha256 "ls".toList)⟩

def listingObservation (execution receipt : Text) (call : Value) : Value :=
  listingMessage [("execution_id", .str execution), ("prediction_receipt", .str receipt), ("call", call),
    ("call_provenance", .str "measured".toList),
    ("clauses", .arr [.record [("repo", .str "django".toList), ("argv", .arr [.str "ls".toList, .str "-l".toList])]])]

def listedCall : Value :=
  .record [("repo", .str "django".toList), ("command", .str "ls".toList), ("tool_name", .str "bash".toList),
    ("imputed_targets", .arr [.str "rss".toList])]

def listingActions : List Action :=
  [.reserve (.killed 500) true, .reserve .unopened true,
    .predict (listingMessage [("tool_call_id", .str "c".toList)]) "t".toList,
    .predict (listingMessage [("tool_call_id", .null), ("event_id", .str "d".toList)]) "u".toList,
    .claim (listingClaim "e".toList "t".toList) .works,
    .observe (listingObservation "e".toList "t".toList listedCall) (.killed 90), .reserve .works true,
    .claim (listingClaim "e".toList "t".toList) .works, .claim (listingClaim "f".toList "u".toList) .works,
    .observe (listingObservation "e".toList "t".toList listedCall) .works,
    .observe (listingObservation "e".toList "t".toList listedCall) .works,
    .markDegraded "e".toList "oom".toList .undone]

def Append.tidy : Append → Bool
  | .works | .undone | .killed _ => true
  | _ => false

def Host.careful (b : Binding) (h : Host kb) : Action → Bool
  | .predict _ receipt =>
    (h.durable b).book.claims.entries.all fun e => e.2.get? "receipt_hash" ≠ some (.str (kb.sha256 receipt))
  | .claim _ plan | .markDegraded _ _ plan => plan.tidy
  | .observe payload plan =>
    plan.tidy &&
      match h.scope.map (observe b · payload) with
      | some (.ok (.commit row _ _)) =>
        match row.get? "payload" with
        | some durable => (validateMessage kb durable "observe").isOk
        | none => true
      | _ => true
  | _ => true

theorem Append.clean_of_tidy {plan : Append} (h : plan.tidy = true) (journal : Option (List UInt8)) :
    plan.clean journal := by
  cases plan with
  | left _ => cases h
  | unsynced => cases h
  | _ => trivial

theorem Host.orderly_of_careful {b : Binding} {h : Host kb} {l : Action × Reply} (hc : h.careful b l.1 = true) :
    h.orderly b l := by
  obtain ⟨action, reply⟩ := l
  cases action with
  | claim r plan => exact Append.clean_of_tidy hc h.journal
  | markDegraded executionId reason plan => exact Append.clean_of_tidy hc h.journal
  | observe payload plan =>
    obtain ⟨hplan, hread⟩ := Bool.and_eq_true_iff.1 hc
    refine ⟨Append.clean_of_tidy hplan h.journal, fun s hs row next a ht durable hdurable => ?_⟩
    rw [hs, Option.map_some, ht] at hread
    simp only [hdurable] at hread
    cases hv : validateMessage kb durable "observe" with
    | ok u => rfl
    | error e =>
      rw [hv] at hread
      cases hread
  | _ => trivial

def listingRun : Host listingKb × List (Action × Reply) :=
  trace (guarded (Host.careful listingBinding) (Host.next listingBinding)) Host.empty listingActions

theorem run_listingRun : Run ((Host.system listingKb listingBinding).restrict fun h l => h.careful listingBinding l.1)
    Host.empty listingRun.2 listingRun.1 :=
  run_guarded _ _ _ _ _

theorem listingRun_complete : listingRun.2.length = 12 ∧ listingRun.1.scope.isSome = true := by decide +kernel

theorem recovery_exact_listing : listingRun.2.length = 12 ∧
    Run (Durable.system listingKb listingBinding) Durable.start listingRun.2 (listingRun.1.durable listingBinding) ∧
    (∃ kept, rows.recover replay (Book.new listingKb) (listingRun.1.journal.getD []) =
      some ((listingRun.1.durable listingBinding).book, kept)) ∧
    ∀ s, listingRun.1.scope = some s → s.book = (listingRun.1.durable listingBinding).book := by
  have hr : Run ((Host.system listingKb listingBinding).restrict (Host.orderly listingBinding)) Host.empty listingRun.2
      listingRun.1 := by
    refine run_listingRun.mono ?_
    intro h l h' hl
    exact ⟨hl.1, Host.orderly_of_careful hl.2⟩
  exact ⟨listingRun_complete.1, recovery_exact faithful_listingKb hr⟩

end Simulation

end ClawBox.HostKb
