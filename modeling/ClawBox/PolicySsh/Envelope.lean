import ClawBox.Lib.Base64Url
import ClawBox.Lib.JsonCut
import ClawBox.Lib.JsonSorted
import ClawBox.Lib.JsonSpaced
import ClawBox.Lib.PyDict
import ClawBox.Lib.PyText
import ClawBox.Lib.Utf8
import ClawBox.PolicySsh.Launcher

namespace ClawBox.PolicySsh

open JsonText Quoting

def PREFIX : Text := "__CBX_EXEC_1__".toList

def DEFERRED_TIMEOUT_PREFIX : Text := "CLAWBOX_DEFERRED_TOOL_TIMEOUT_SECONDS=".toList

def base64 (s : Text) : Text := Base64Url.encode (Utf8.encode s)

section Plugin

structure CallPrediction where
  schemaVersion : Json
  scope : Json
  memoryMeasurement : Json
  targets : Json

structure ToolDecision where
  lattice : Option CallPrediction
  tool : Option CallPrediction
  callPrediction : Option CallPrediction
  toolName : Option Text
  predictionReceipt : Option Text

def ToolDecision.model (d : ToolDecision) (lattice : Bool) : Option CallPrediction :=
  if lattice then d.lattice else d.tool.or d.callPrediction

def ToolDecision.receipt (d : ToolDecision) : Option Text := d.predictionReceipt.filter (· ≠ [])

def CallPrediction.json (p : CallPrediction) : Json :=
  .obj [("schema_version".toList, p.schemaVersion), ("scope".toList, p.scope),
    ("memory_measurement".toList, p.memoryMeasurement), ("targets".toList, p.targets)]

def sandboxExecMembers (command executionId : Text) (decision : Option ToolDecision) (lattice : Bool) :
    List (Text × Json) :=
  [("v".toList, .num "1".toList), ("execution_id".toList, .str executionId),
      ("tool_name".toList, .str ((decision.bind (·.toolName)).getD "exec".toList))] ++
    ((decision.bind (·.receipt)).map fun r => ("prediction_receipt".toList, Json.str r)).toList ++
    [("profile_command_b64".toList, .str (base64 command))] ++
    ((decision.bind (·.model lattice)).map fun p => ("call_prediction".toList, p.json)).toList

def sandboxExecHeader (command executionId : Text) (decision : Option ToolDecision) (lattice : Bool) : Text :=
  PREFIX ++ "b64:".toList ++ base64 (dumps rawEscape (.obj (sandboxExecMembers command executionId decision lattice)))

def buildSandboxExecEnvelope (command executionId : Text) (decision : Option ToolDecision) (lattice : Bool) : Text :=
  sandboxExecHeader command executionId decision lattice ++ '\n' :: command

end Plugin

section Shim

/-- The floating-point numbers of the interpreter, and `str` of what is no string. -/
structure Python where
  F : Type
  -- `float(text)`
  float : Text → Option F
  finite : F → Bool
  positive : F → Bool
  zero : F → Bool
  one : F → Bool
  repr : F → Text
  str : Json → Text

variable (N : Python)

def integral (t : Text) : Bool := t.all fun c => c.isDigit || c = '-'

def renumber (t : Text) : Text :=
  if integral t then if t = "-0".toList then "0".toList else t
  else ((N.float t).map N.repr).getD t

def dictOf (l : List (Text × Json)) : PyDict Text Json := l.foldl (fun d m => d.set m.1 m.2) ∅

mutual

def decoded : Json → Json
  | .num t => .num (renumber N t)
  | .arr l => .arr (decodedItems l)
  | .obj l => .obj (dictOf (decodedMembers l)).entries
  | .null => .null
  | .bool b => .bool b
  | .str s => .str s

def decodedItems : List Json → List Json
  | [] => []
  | j :: l => decoded j :: decodedItems l

def decodedMembers : List (Text × Json) → List (Text × Json)
  | [] => []
  | (k, j) :: l => (k, decoded j) :: decodedMembers l

end

def jsonLoads (s : Text) : Option Json := (loads s).map (decoded N)

def b64urlDecode (s : Text) : Option (List UInt8) := Base64Url.decodeLenient (s ++ Base64Url.padding s.length)

inductive Raised
  | value (message : String)
  | attribute
  | type

abbrev Metadata := PyDict Text Json

def bridgeMetadata (metadata : Metadata) (profile : Text) : Metadata :=
  metadata.set "profile_command_b64".toList (.str (base64 profile))

def bridgeHeader (metadata : Metadata) (profile : Text) : Text :=
  base64 (dumps asciiEscape (sortKeys (.obj (bridgeMetadata metadata profile).entries)))

variable {N} in
def refused {α : Type} (message : String) : Except Raised α := .error (.value message)

def splitDeferredTimeout (profile : Text) : Except Raised (Text × Option N.F) :=
  match DEFERRED_TIMEOUT_PREFIX.isPrefixOf? profile with
  | none => .ok (profile, none)
  | some behind =>
    match Fields.cut '\n' behind with
    | none => refused "deferred Tool timeout marker has no command"
    | some (raw, remainder) =>
      match N.float raw with
      | none => refused "deferred Tool timeout is not numeric"
      | some requested =>
        if N.positive requested then .ok (remainder, some requested) else refused
          "deferred Tool timeout must be positive"

def hostProfileCommand (command : Text) : Text :=
  match DEFERRED_TIMEOUT_PREFIX.isPrefixOf? command with
  | none => command
  | some behind =>
    match Fields.cut '\n' behind with
    | none => command
    | some (raw, remainder) =>
      match N.float raw with
      | none => command
      | some timeout => if N.positive timeout then remainder else command

def isOne : Option Json → Bool
  | some (.num t) => if integral t then t = "1".toList else (N.float t).any N.one
  | some (.bool b) => b
  | _ => false

def truthy : Option Json → Bool
  | some (.bool b) => b
  | some (.num t) => if integral t then t ≠ "0".toList else !(N.float t).any N.zero
  | some (.str s) => s ≠ []
  | some (.arr l) => !l.isEmpty
  | some (.obj l) => !l.isEmpty
  | _ => false

def headerMetadata (header : Text) : Option Json :=
  match "b64:".toList.isPrefixOf? header with
  | some encoded => ((b64urlDecode encoded).bind Utf8.decode).bind (jsonLoads N)
  | none =>
    match jsonLoads N header with
    | some metadata => some metadata
    | none => some (.obj [("v".toList, .num "1".toList), ("execution_id".toList, .str (PyText.strip header))])

structure Call where
  metadata : Metadata
  command : Text
  profileCommand : Text

def idText (metadata : Metadata) : Text :=
  match metadata.get? "execution_id".toList with
  | some (.str s) => s
  | some j => N.str j
  | none => []

def profileOf (metadata : Metadata) (payload : Text) : Option Text :=
  match metadata.get? "profile_command_b64".toList with
  | some (.str (c :: s)) => (b64urlDecode (c :: s)).bind Utf8.decode
  | _ => some payload

def runsExec (metadata : Metadata) : Bool :=
  match metadata.get? "tool_name".toList with
  | none => true
  | some j => match j with
    | .str s => s = "exec".toList
    | _ => false

def merged (command : Text) : Text := "\x7b\n".toList ++ command ++ "\n\x7d 2>&1".toList

def timedMetadata (metadata : Metadata) : Option N.F → Metadata
  | some requested => metadata.set "deferred_tool_timeout_seconds".toList (.num (N.repr requested))
  | none => metadata

def envelopeArgument (argument : Text) : Except Raised (Option (Call × Text)) :=
  match PyText.find PREFIX argument with
  | none => .ok none
  | some (before, rest) =>
    match Fields.cut '\n' rest with
    | none => .ok none
    | some (header, payload) =>
      match headerMetadata N header with
      | none => .ok none
      | some (.obj l) =>
        let metadata := dictOf l
        if !isOne N (metadata.get? "v".toList) || !truthy N (metadata.get? "execution_id".toList) then .ok none
        else
          match profileOf metadata payload with
          | none => .ok none
          | some profile =>
            match splitDeferredTimeout N profile with
            | .error e => .error e
            | .ok (profile, timeout) =>
              let metadata := timedMetadata N metadata timeout
              let command := collectorVisibleLauncher (before ++ payload) (idText N metadata)
              let argument := PREFIX ++ "b64:".toList ++ bridgeHeader metadata profile ++ '\n' :: command
              if runsExec metadata then .ok (some (⟨metadata, merged command, profile⟩, merged argument))
              else .ok (some (⟨metadata, command, profile⟩, argument))
      | some _ => .error .attribute

def envelope : List Text → Except Raised (Option (Call × List Text))
  | [] => .ok none
  | argument :: argv =>
    match envelopeArgument N argument with
    | .error e => .error e
    | .ok (some (call, argument)) => .ok (some (call, argument :: argv))
    | .ok none => (envelope argv).map fun o => o.map fun p => (p.1, argument :: p.2)

def FILESYSTEM : Text := "openclaw-sandbox-fs".toList

def unenveloped (executionId command : Text) : Call × Text :=
  let filesystem := (PyText.find FILESYSTEM command).isSome
  let metadata := dictOf [("v".toList, .num "1".toList), ("execution_id".toList, .str executionId),
    ("tool_name".toList, .str (if filesystem then "filesystem" else "ssh_backend_maintenance").toList),
    ("execution_scope".toList, .str (if filesystem then "agent-tool" else "backend-maintenance").toList),
    ("runtime_trace_expected".toList, .bool false)]
  (⟨metadata, command, command⟩, PREFIX ++ "b64:".toList ++ bridgeHeader metadata command ++ '\n' :: command)

def insertProgress (progress : Json) : List Text → Except Raised (List Text)
  | [] => refused "progress control requires a Tool execution envelope"
  | argument :: argv =>
    match PyText.find (PREFIX ++ "b64:".toList) argument with
    | none => (insertProgress progress argv).map (argument :: ·)
    | some (before, rest) =>
      match Fields.cut '\n' rest with
      | none => refused "substring not found"
      | some (header, payload) =>
        match ((b64urlDecode header).bind Utf8.decode).bind (jsonLoads N) with
        | none => refused "invalid header"
        | some (.obj l) =>
          let header := .obj ((dictOf l).set "progress_control".toList progress).entries
          .ok ((before ++ (PREFIX ++ "b64:".toList ++ base64 (dumpsSpaced asciiEscape header) ++ '\n' :: payload)) ::
            argv)
        | some _ => .error .type

end Shim

section Bridge

def foldName (s : Text) : Text :=
  s.map fun c => if c = '\u017F' then 's' else if c = '\u212A' then 'k' else c.toLower

structure ExecEnvelope where
  version : ℤ := 0
  executionId : Text := []
  profileCommandB64 : Text := []

def parseInt (t : Text) : Option ℤ :=
  if integral t then
    let n := match t with
      | '-' :: ds => -(Nat.ofDigitChars 10 ds 0 : ℤ)
      | ds => Nat.ofDigitChars 10 ds 0
    if -2 ^ 63 ≤ n ∧ n < 2 ^ 63 then some n else none
  else none

def ExecEnvelope.assign (x : ExecEnvelope) (m : Text × Json) : Option ExecEnvelope :=
  let name := foldName m.1
  match m.2 with
  | .null => some x
  | j =>
    if name = "v".toList then
      match j with
      | .num t => (parseInt t).map fun n => { x with version := n }
      | _ => none
    else if name = "execution_id".toList then
      match j with
      | .str s => some { x with executionId := s }
      | _ => none
    else if name = "profile_command_b64".toList then
      match j with
      | .str s => some { x with profileCommandB64 := s }
      | _ => none
    else some x

def ExecEnvelope.unmarshal (data : Text) : Option ExecEnvelope :=
  match loads data with
  | some (.obj l) => l.foldlM assign {}
  | some .null => some {}
  | _ => none

def validEnvelopeExecutionID (value : Text) : Bool :=
  value ≠ [] && (Utf8.encode value).length ≤ 128 &&
    value.all fun c => ('a' ≤ c && c ≤ 'z') || ('A' ≤ c && c ≤ 'Z') || ('0' ≤ c && c ≤ '9') || "-_.:".toList.contains c

/-- What the bridge takes of a command; the profiled command in bytes. -/
structure Parsed where
  payload : Text
  executionId : Text
  profileCommand : List UInt8
  ok : Bool

def unchanged (command : Text) : Parsed := ⟨command, [], Utf8.encode command, false⟩

def parseExecEnvelope (command : Text) : Parsed :=
  match PyText.find PREFIX command with
  | none => unchanged command
  | some (before, rest) =>
    match Fields.cut '\n' rest with
    | none => unchanged command
    | some (line, behind) =>
      let header := Fields.trimSpace line
      let payload := before ++ behind
      let read : Option ExecEnvelope :=
        match "b64:".toList.isPrefixOf? header with
        | some encoded =>
          ((Base64Url.decodeRaw encoded).bind fun b => ExecEnvelope.unmarshal (Utf8.decodeLossy b)).filter
            (·.version = 1)
        | none =>
          if header.head? = some '{' then (ExecEnvelope.unmarshal header).filter (·.version = 1)
          else some { executionId := header }
      match read with
      | none => unchanged command
      | some x =>
        if !validEnvelopeExecutionID x.executionId then unchanged command
        else if x.profileCommandB64 = [] then ⟨payload, x.executionId, Utf8.encode payload, true⟩
        else
          match Base64Url.decodeRaw x.profileCommandB64 with
          | some (b :: bs) => ⟨payload, x.executionId, b :: bs, true⟩
          | _ => unchanged command

def headerJson (command : Text) : Option Json :=
  (PyText.find PREFIX command).bind fun p =>
    ("b64:".toList.isPrefixOf? (((Fields.cut '\n' p.2).map Prod.fst).getD p.2)).bind fun encoded =>
      (Base64Url.decodeRaw encoded).bind fun b => loads (Utf8.decodeLossy b)

def textOf : Option Json → Text
  | some (.str s) => s
  | _ => []

def envelopeField (command field : Text) : Text :=
  match headerJson command with
  | some (.obj l) => textOf ((dictOf l).get? field)
  | _ => []

def predictionReceipt (command : Text) : Text := envelopeField command "prediction_receipt".toList

/-- `strconv.ParseFloat`, with none for a number out of range. -/
structure Go where
  G : Type
  parseFloat : Text → Option G

variable (go : Go)

structure ProgressControl where
  url : Text := []
  token : Text := []
  request : Option (PyDict Text Json) := none
  timeoutSeconds : Option go.G := none

variable {go} in
def ProgressControl.assign (p : ProgressControl go) (m : Text × Json) : Option (ProgressControl go) :=
  let name := foldName m.1
  match m.2 with
  | .null => some (if name = "request".toList then { p with request := none } else p)
  | j =>
    if name = "url".toList then
      match j with
      | .str s => some { p with url := s }
      | _ => none
    else if name = "token".toList then
      match j with
      | .str s => some { p with token := s }
      | _ => none
    else if name = "request".toList then
      match j with
      | .obj l => some { p with request := some ((p.request.getD ∅).update (dictOf l)) }
      | _ => none
    else if name = "timeout_seconds".toList then
      match j with
      | .num t => (go.parseFloat t).map fun f => { p with timeoutSeconds := some f }
      | _ => none
    else some p

def assignProgress (o : Option (ProgressControl go)) (m : Text × Json) : Option (Option (ProgressControl go)) :=
  if foldName m.1 = "progress_control".toList then
    match m.2 with
    | .null => some none
    | .obj l => (l.foldlM ProgressControl.assign (o.getD {})).map some
    | _ => none
  else some o

def parseProgressControl (command : Text) : Option (ProgressControl go) :=
  match headerJson command with
  | some (.obj l) => (l.foldlM (assignProgress go) none).join
  | _ => none

end Bridge

end ClawBox.PolicySsh
