import ClawBox.Lib.JsonValue
import ClawBox.Lib.Journal
import ClawBox.Lib.Transition
import ClawBox.Lib.Utf8

namespace ClawBox.HostKb

open JsonText

abbrev Text := List Char

def rows : Journal.Format UInt8 Value where
  newline := UInt8.ofNat '\n'.toNat
  render v := Utf8.encode v.text
  parse b := (Utf8.decode b).bind Value.read
  newline_not_mem v h := v.newline_not_mem_text ((Utf8.mem_encode (by decide)).1 h)
  parse_render v := by rw [Utf8.decode_encode, Option.bind_some, Value.read_text]

structure Prediction where
  response : Text → Value
  selected : Value
  bindings : Value

/-- The knowledge bases and the schemas, which other packages implement, and SHA-256. -/
structure Kb where
  View : Type
  Call : Type
  Clause : Type
  seed : View
  successor : View → Option Call → List Clause → View
  generation : View → ℕ
  sha256 : Text → Text
  -- The message of the `ValidationError`.
  schema : String → Value → Option String
  predictions : View → Option Text → Value → Option Prediction
  -- The fields of `CompletedCall` and its constructor, with none for a `TypeError`; `ClauseObservation` below.
  callFields : List String
  call : PyDict Text Value → Option Call
  clauseFields : List String
  clause : PyDict Text Value → Option Clause
  asdict : Clause → Value
  bindObservations : Value → List Clause → List Clause
  repo : Call → Value
  command : Call → Value
  toolName : Call → Value
  provenance : Call → Value
  memoryEligible : Call → Bool
  censored : Call → Bool
  memoryMeasurement : Call → Option Text
  clauseRepo : Clause → Value

variable (kb : Kb)

structure Book where
  view : kb.View
  claims : PyDict Text Value
  claimedCalls : PyDict Text Text
  committed : PyDict Text (Value × Value)
  degraded : Bool
  observedMemoryMeasurement : Option Text

structure Item where
  requestDigest : Text
  response : Value
  selected : Value
  command : Value
  commandSha256 : Value
  toolName : Value
  callKey : Text
  executionId : Option Text
  bindings : Value

structure Cache where
  predictions : PyDict Text Item
  receipts : PyDict Text Text

structure Scope where
  book : Book kb
  cache : Cache

def Book.new : Book kb := ⟨kb.seed, ∅, ∅, ∅, false, none⟩

def Cache.new : Cache := ⟨∅, ∅⟩

structure Binding where
  manager : Value
  sessionId : Value
  repository : Value
  measurement : Value

def Binding.identity (b : Binding) : Value := (b.manager.set "session_id" b.sessionId).set "repository" b.repository

inductive Refusal
  | value (message : String)
  | key
  | prediction
  | records

def MAX_BODY_BYTES : ℕ := 1024 * 1024

def digest (v : Value) : Text := kb.sha256 v.text

def refuse {α : Type} (message : String) : Except Refusal α := .error (.value message)

def refuseIf (c : Prop) [Decidable c] (message : String) : Except Refusal Unit := if c then refuse message else pure ()

def field (v : Value) (key : String) : Except Refusal Value :=
  match v.get? key with
  | some w => .ok w
  | none => .error .key

def textField (v : Value) (key : String) : Except Refusal Text :=
  match (v.get? key).bind Value.str? with
  | some s => .ok s
  | none => .error .key

def validateMessage (v : Value) (kind : String) : Except Refusal Unit := do
  refuseIf (MAX_BODY_BYTES < (Utf8.encode v.text).length) "host KB request exceeds 1048576 bytes"
  match kb.schema kind v with
  | some message => refuse ("invalid host KB " ++ kind ++ ": " ++ message)
  | none => pure ()
  let command ← textField v "command"
  refuseIf (v.get? "command_sha256" ≠ some (.str (kb.sha256 command))) "logical command digest mismatch"

def checkBinding (b : Binding) (payload : Value) : Except Refusal Unit := do
  refuseIf ((← field payload "session_id") ≠ b.sessionId ∨ (← field payload "repository") ≠ b.repository)
    "host KB binding mismatch"
  refuseIf ((← field payload "memory_measurement") ≠ b.measurement) "host KB measurement mismatch"

def tupled (v : Value) : Option Value :=
  match v.json with
  | .arr _ => some v
  | .str s => some (.arr (s.map fun c => .str [c]))
  | .obj _ => some (.arr (v.dict.keys.map .str))
  | _ => none

-- What is neither an object nor null does not pass the schema.
def record {α : Type} (fields : List String) (make : PyDict Text Value → Option α) (data : Value) : Option (Option α) :=
  match data.json with
  | .null => some none
  | .obj _ =>
    if data.dict.keys.any fun k => !(fields.map String.toList).contains k then none
    else do
      let tuples ← ["argv", "imputed_targets"].foldlM (fun (d : PyDict Text Value) name =>
        match d.get? name.toList with
        | some v => (tupled v).map (d.set name.toList)
        | none => some d) data.dict
      (make tuples).map some
  | _ => none

-- A clause that is null raises when its repository is looked up.
def learningRecords (call clauses : Value) : Option (Option kb.Call × List kb.Clause) := do
  let call ← record kb.callFields kb.call call
  let rows ← clauses.items?
  return (call, ← rows.mapM fun row => (record kb.clauseFields kb.clause row).join)

variable {kb}

def callKey (payload : Value) : Except Refusal Text := do
  let id ← field payload "tool_call_id"
  match id.str? with
  | some (c :: s) => pure (c :: s)
  | _ => textField payload "event_id"

def predict (b : Binding) (s : Scope kb) (payload : Value) (receipt : Text) : Except Refusal (Scope kb × Value) := do
  validateMessage kb payload "predict"
  checkBinding b payload
  let key ← callKey payload
  match s.cache.predictions.get? key with
  | some previous =>
    refuseIf (previous.requestDigest ≠ digest kb payload) "prediction call identity reused with different inputs"
    return (s, previous.response)
  | none =>
    refuseIf (s.book.claimedCalls.get? key).isSome "call already claimed; reconcile execution before resuming"
    let some p := kb.predictions s.book.view s.book.observedMemoryMeasurement payload | .error .prediction
    let item : Item := ⟨digest kb payload, p.response receipt, p.selected, ← field payload "command",
      ← field payload "command_sha256", ← field payload "tool_name", key, none, p.bindings⟩
    return ({ s with cache := ⟨s.cache.predictions.set key item, s.cache.receipts.set (kb.sha256 receipt) key⟩ },
      item.response)

inductive Answer
  | prediction (response : Value)
  | selection (selected : Value)
  | observation (duplicate : Bool) (generation : Value) (payloadSha256 : Text)
  | degraded

/-- An operation that answers at once, or one that is suspended until its row is in the journal. -/
inductive Transaction (kb : Kb)
  | answer (a : Answer)
  | commit (row : Value) (next : Scope kb) (a : Answer)

structure ClaimRequest where
  executionId : Text
  predictionReceipt : Text
  command : Value
  commandSha256 : Value

def Item.claimRow (item : Item) (executionId receiptHash : Text) : Value :=
  .record [("kind", .str "claim".toList), ("execution_id", .str executionId), ("receipt_hash", .str receiptHash),
    ("command", item.command), ("command_sha256", item.commandSha256), ("tool_name", item.toolName),
    ("call_key", .str item.callKey), ("selected", item.selected), ("bindings", item.bindings)]

def Book.claimed (b : Book kb) (executionId callKey : Text) (row : Value) : Book kb :=
  { b with claims := b.claims.set executionId row, claimedCalls := b.claimedCalls.set callKey executionId }

def Cache.claimed (c : Cache) (item : Item) (executionId : Text) : Cache :=
  { c with predictions := c.predictions.set item.callKey { item with executionId := some executionId } }

def claim (s : Scope kb) (r : ClaimRequest) : Except Refusal (Transaction kb) := do
  let receiptHash := kb.sha256 r.predictionReceipt
  match s.book.claims.get? r.executionId with
  | some existing =>
    refuseIf (existing.get? "receipt_hash" ≠ some (.str receiptHash) ∨ existing.get? "command_sha256" ≠
      some r.commandSha256)
      "conflicting execution claim"
    return .answer (.selection (← field existing "selected"))
  | none =>
    let some item := (s.cache.receipts.get? receiptHash).bind s.cache.predictions.get?
      | refuse "missing or mismatched host prediction receipt"
    refuseIf (item.commandSha256 ≠ r.commandSha256 ∨ item.command ≠ r.command)
      "missing or mismatched host prediction receipt"
    refuseIf (item.executionId ≠ none ∧ item.executionId ≠ some r.executionId) "prediction receipt already claimed"
    let row := item.claimRow r.executionId receiptHash
    return .commit row ⟨s.book.claimed r.executionId item.callKey row, s.cache.claimed item r.executionId⟩
      (.selection item.selected)

def remember (measurement : Option Text) (call : Option kb.Call) : Option Text :=
  match call with
  | some c =>
    if kb.memoryEligible c ∧ ¬ kb.censored c ∧
      kb.memoryMeasurement c = some "guest_memtotal_minus_memavailable".toList then
      kb.memoryMeasurement c
    else measurement
  | none => measurement

def checkRecords (payload : Value) (call : Option kb.Call) (clauses : List kb.Clause) : Except Refusal Unit := do
  match call with
  | some c =>
    refuseIf (kb.repo c ≠ (← field payload "repository") ∨ kb.command c ≠ (← field payload "command") ∨
      kb.toolName c ≠ (← field payload "tool_name")) "call learning identity mismatch"
    refuseIf (kb.provenance c ≠ (← field payload "call_provenance")) "call target provenance mismatch"
  | none => pure ()
  let repository ← field payload "repository"
  refuseIf (clauses.any fun row => kb.clauseRepo row ≠ repository) "clause learning repository mismatch"

def Book.observed (b : Book kb) (executionId : Text) (call : Option kb.Call) (clauses : List kb.Clause)
    (wireDigest : Value) :
    Book kb :=
  let view := kb.successor b.view call clauses
  { b with
    view := view
    observedMemoryMeasurement := remember b.observedMemoryMeasurement call
    committed := b.committed.set executionId (wireDigest, .num (kb.generation view)) }

def normalized (payload : Value) (clauses : List kb.Clause) : Value :=
  payload.set "clauses" (.arr (clauses.map kb.asdict))

variable (kb) in
def observeRow (durable : Value) (wireDigest : Text) (generation : ℕ) : Value :=
  .record [("kind", .str "observe".toList), ("payload", durable), ("payload_digest", .str (digest kb durable)),
    ("wire_digest", .str wireDigest), ("generation", .num generation)]

structure Lesson (kb : Kb) where
  executionId : Text
  receiptHash : Text
  call : Option kb.Call
  clauses : List kb.Clause

def lesson (b : Binding) (book : Book kb) (payload : Value) : Except Refusal (Lesson kb) := do
  validateMessage kb payload "observe"
  checkBinding b payload
  let executionId ← textField payload "execution_id"
  let receiptHash := kb.sha256 (← textField payload "prediction_receipt")
  let some claim := book.claims.get? executionId | refuse "observation does not match claimed admission"
  refuseIf (["command", "command_sha256", "tool_name"].any (fun k => claim.get? k ≠ payload.get? k) ∨
    claim.get? "receipt_hash" ≠ some (.str receiptHash)) "observation does not match claimed admission"
  let callValue ← field payload "call"
  let some (call, clauses) := learningRecords kb callValue (← field payload "clauses") | .error .records
  checkRecords payload call clauses
  return ⟨executionId, receiptHash, call, kb.bindObservations (← field claim "bindings") clauses⟩

def Lesson.durable (l : Lesson kb) (payload : Value) : Value :=
  (normalized payload l.clauses).set "prediction_receipt" (.str l.receiptHash)

def observe (b : Binding) (s : Scope kb) (payload : Value) : Except Refusal (Transaction kb) := do
  let l ← lesson b s.book payload
  let payloadDigest := digest kb (normalized payload l.clauses)
  match s.book.committed.get? l.executionId with
  | some previous =>
    refuseIf (previous.1 ≠ .str payloadDigest) "execution reused with different learning payload"
    return .answer (.observation true previous.2 payloadDigest)
  | none =>
    let next := s.book.observed l.executionId l.call l.clauses (.str payloadDigest)
    let generation := kb.generation next.view
    return .commit (observeRow kb (l.durable payload) payloadDigest generation) { s with book := next }
      (.observation false (.num generation) payloadDigest)

def degradedRow (executionId reason : Text) : Value :=
  .record [("kind", .str "degraded".toList), ("execution_id", .str executionId), ("reason", .str (reason.take 1024))]

def markDegraded (s : Scope kb) (executionId reason : Text) : Transaction kb :=
  .commit (degradedRow executionId reason) { s with book := { s.book with degraded := true } } .degraded

def replay (b : Book kb) (row : Value) : Option (Book kb) := do
  let kind ← row.get? "kind"
  if kind = .str "claim".toList then
    let executionId ← (row.get? "execution_id").bind Value.str?
    let key ← (row.get? "call_key").bind Value.str?
    if (b.claims.get? executionId).isSome then none
    else return b.claimed executionId key row
  else if kind = .str "observe".toList then
    let payload ← row.get? "payload"
    let _ ← (validateMessage kb payload "observe").toOption
    let (call, clauses) ← learningRecords kb (← payload.get? "call") (← payload.get? "clauses")
    let executionId ← (payload.get? "execution_id").bind Value.str?
    if (b.committed.get? executionId).isSome ∨ (b.claims.get? executionId).isNone then none
    else if row.get? "payload_digest" ≠ some (.str (digest kb payload)) then none
    else
      let next := b.observed executionId call clauses (← row.get? "wire_digest")
      if row.get? "generation" ≠ some (.num (kb.generation next.view)) then none else return next
  else if kind = .str "degraded".toList then return { b with degraded := true }
  else none

end ClawBox.HostKb
