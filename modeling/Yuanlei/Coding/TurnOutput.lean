import Yuanlei.Lib.Json
import Yuanlei.Lib.PyText
import Yuanlei.Lib.TextReplace

/-!
# What a coding turn writes down

A coding turn runs a command line tool and reads its output as JSON lines.  The adapters turn the
lines into normalised events; the credentials that the tool was given are replaced in the string
values of the events, and the events, a summary of the text and the outcome are stored.

The model follows `_execute_turn_tail` from the output of the tool to what it stores.
Floating-point numbers and the text of values that are no strings are parameters.

Main results:

- `executeTurnTail`: what the tail of a turn stores and returns.
-/

universe u

namespace Yuanlei.CodingTurn

open Json (FloatText)

variable {F : Type u}

/-! ## Values of the language -/

/-- Reading numbers, their truth value and `str` of a value that is no string. -/
structure PyValues (F : Type u) where
  float : FloatText F
  isZero : F → Bool
  render : Json F → String

abbrev Fields (F : Type u) := List (String × Json F)

variable (py : PyValues F)

def truthy : Json F → Bool
  | .null => false
  | .bool b => b
  | .int i => i != 0
  | .float x => !py.isZero x
  | .str s => s != ""
  | .arr items => !items.isEmpty
  | .obj fields => !fields.isEmpty

/-- `v or d` -/
def orElse (v d : Json F) : Json F :=
  if truthy py v then v else d

def strOf : Json F → String
  | .str s => s
  | v => py.render v

/-- `fields.get(key)` -/
def fieldOf (fields : Fields F) (key : String) : Json F :=
  (fields.lookup key).getD .null

/-- `v.get(key)`; `none` is the error for a value that is no dictionary. -/
def attrGet (v : Json F) (key : String) : Option (Json F) :=
  match v with
  | .obj fields => some (fieldOf fields key)
  | _ => none

/-! ## Normalised events -/

inductive EventKind where
  | sessionRef
  | outputDelta
  | toolCall
  | usage
  | error
  | fileChange
  | warning
  | resumeDegraded
  | turnFinished
  | sessionStatus
deriving DecidableEq

def EventKind.name : EventKind → String
  | .sessionRef => "session_ref"
  | .outputDelta => "output_delta"
  | .toolCall => "tool_call"
  | .usage => "usage"
  | .error => "error"
  | .fileChange => "file_change"
  | .warning => "warning"
  | .resumeDegraded => "resume_degraded"
  | .turnFinished => "turn_finished"
  | .sessionStatus => "session_status"

structure Event (F : Type u) where
  kind : EventKind
  payload : Fields F

def iterJsonLines (output : List Char) : List (Fields F) :=
  (PyText.splitLines output).filterMap fun rawLine =>
    let line := PyText.stripChars rawLine
    if line.head? = some '{' then
      match Json.loads py.float line with
      | some (.obj fields) => some fields
      | _ => none
    else none

/-- `OpenCodeAdapter.parse_events` on one line -/
def openCodeEvents (payload : Fields F) : Option (List (Event F)) := do
  let eventType := strOf py (orElse py (fieldOf payload "type") (.str ""))
  let part := orElse py (fieldOf payload "part") (.obj [])
  let sessionId ←
    if truthy py (fieldOf payload "sessionID") then some (fieldOf payload "sessionID")
    else attrGet part "sessionID"
  if eventType = "step_start" then
    some (if truthy py sessionId then [⟨.sessionRef, [("session_ref", sessionId)]⟩] else [])
  else if eventType = "text" then
    let text ← attrGet part "text"
    some [⟨.outputDelta, [("text", orElse py text (.str ""))]⟩]
  else if eventType = "tool" then
    let tool ← attrGet part "tool"
    let state ← attrGet part "state"
    some [⟨.toolCall, [("tool", orElse py tool (.str "tool")), ("state", orElse py state (.obj []))]⟩]
  else if eventType = "step_finish" then
    let tokens ← attrGet part "tokens"
    let cost ← attrGet part "cost"
    let reason ← attrGet part "reason"
    some [⟨.usage, [("tokens", orElse py tokens (.obj [])), ("cost", cost), ("reason", reason)]⟩]
  else if eventType = "error" then
    let data ← attrGet (orElse py (fieldOf payload "error") (.obj [])) "data"
    let message ← attrGet (orElse py data (.obj [])) "message"
    some [⟨.error, [("message", orElse py message (.str "opencode error"))]⟩]
  else
    some [⟨.warning, [("message", .str ("unknown opencode event type: " ++
      if eventType = "" then "<empty>" else eventType))]⟩]

/-- `CodexAdapter.parse_events` on one line -/
def codexEvents (payload : Fields F) : Option (List (Event F)) := do
  let eventType := strOf py (orElse py (fieldOf payload "type") (.str ""))
  if eventType = "thread.started" then
    let threadId := fieldOf payload "thread_id"
    some (if truthy py threadId then [⟨.sessionRef, [("session_ref", threadId)]⟩] else [])
  else if eventType = "turn.started" then some []
  else if eventType = "item.completed" then
    let item := orElse py (fieldOf payload "item") (.obj [])
    let type ← attrGet item "type"
    let itemType := strOf py (orElse py type (.str ""))
    if itemType = "agent_message" then
      let text ← attrGet item "text"
      some [⟨.outputDelta, [("text", orElse py text (.str ""))]⟩]
    else if itemType = "command_execution" then
      let command ← attrGet item "command"
      let status ← attrGet item "status"
      some [⟨.toolCall, [("tool", .str "shell"), ("command", command), ("status", status)]⟩]
    else if itemType = "file_change" ∨ itemType = "patch_apply" then
      match item with
      | .obj fields => some [⟨.fileChange, fields⟩]
      | _ => none
    else
      some [⟨.warning, [("message", .str ("unknown codex item type: " ++
        if itemType = "" then "<empty>" else itemType))]⟩]
  else if eventType = "turn.completed" then
    some [⟨.usage, [("usage", orElse py (fieldOf payload "usage") (.obj []))]⟩]
  else if eventType = "error" ∨ eventType = "turn.failed" then
    let message ←
      if truthy py (fieldOf payload "message") then some (fieldOf payload "message")
      else attrGet (orElse py (fieldOf payload "error") (.obj [])) "message"
    some [⟨.error, [("message", orElse py message (.str "codex error"))]⟩]
  else
    some [⟨.warning, [("message", .str ("unknown codex event type: " ++
      if eventType = "" then "<empty>" else eventType))]⟩]

inductive Executor where
  | opencode
  | codex
deriving DecidableEq

def Executor.name : Executor → String
  | .opencode => "opencode"
  | .codex => "codex"

/-- The events of an output; `none` is an error of the adapter. -/
def parseEvents (executor : Executor) (output : List Char) : Option (List (Event F)) :=
  ((iterJsonLines py output).mapM fun payload =>
    match executor with
    | .opencode => openCodeEvents py payload
    | .codex => codexEvents py payload).map List.flatten

/-! ## Redaction -/

def marker : List Char :=
  ['[', 'r', 'e', 'd', 'a', 'c', 't', 'e', 'd', ']']

def redactCredentialValues (text : List Char) (secrets : List (List Char)) : List Char :=
  secrets.foldl
    (fun redacted secret =>
      if 4 ≤ secret.length then TextReplace.replace secret marker redacted else redacted) text

def redactString (secrets : List (List Char)) (s : String) : String :=
  String.ofList (redactCredentialValues s.toList secrets)

mutual

/-- `_redact_event_payload`: the string values at any depth. -/
def redactEventPayload (secrets : List (List Char)) : Json F → Json F
  | .str s => .str (redactString secrets s)
  | .obj fields => .obj (redactFields secrets fields)
  | .arr items => .arr (redactItems secrets items)
  | v => v

def redactItems (secrets : List (List Char)) : List (Json F) → List (Json F)
  | [] => []
  | v :: vs => redactEventPayload secrets v :: redactItems secrets vs

def redactFields (secrets : List (List Char)) : Fields F → Fields F
  | [] => []
  | (k, v) :: fs => (k, redactEventPayload secrets v) :: redactFields secrets fs

end

def redactEvent (secrets : List (List Char)) (event : Event F) : Event F :=
  { event with payload := redactFields secrets event.payload }

/-! ## The result of a turn -/

structure TurnResult (F : Type u) where
  texts : List String
  sessionRef : Option String
  usage : Option (Fields F)
  error : Option String

/-- One event of `extract_turn_result`. -/
def extractStep (result : TurnResult F) (event : Event F) : TurnResult F :=
  match event.kind with
  | .outputDelta =>
    { result with
      texts := result.texts ++ [strOf py (orElse py (fieldOf event.payload "text") (.str ""))] }
  | .sessionRef =>
    let ref := strOf py (orElse py (fieldOf event.payload "session_ref") (.str ""))
    { result with sessionRef := if ref = "" then result.sessionRef else some ref }
  | .usage => { result with usage := some event.payload }
  | .error =>
    { result with
      error := some (strOf py
        (orElse py (fieldOf event.payload "message") (.str "coding executor failed"))) }
  | _ => result

def extractTurnResult (events : List (Event F)) : TurnResult F :=
  events.foldl (extractStep py) ⟨[], none, none, none⟩

/-- `"".join(texts).strip()` -/
def TurnResult.outputText (result : TurnResult F) : List Char :=
  PyText.stripChars (result.texts.map String.toList).flatten

/-! ## The tail of a turn -/

/-- What the tail of a turn starts from, with the answer of the sandbox. -/
structure TurnInput where
  executor : Executor
  sessionId : String
  turnSeq : Nat
  cliSessionRef : Option String
  resumeDegraded : Bool
  rawOutput : List Char
  exitCode : Int
  /-- The text of the exception, where the sandbox failed. -/
  infraError : Option String
  cancelled : Bool

structure TurnOutcome (F : Type u) where
  sessionId : String
  turnSeq : Nat
  status : String
  executor : String
  outputText : String
  cliSessionRef : Option String
  usage : Option (Fields F)
  eventCount : Nat
  resumeDegraded : Bool
  errorCode : Option String
  errorMessage : Option String

/-- What the tail of a turn stores and returns. -/
structure TurnRecord (F : Type u) where
  events : List (Event F)
  turnStatus : String
  resultSummary : String
  turnUsage : Fields F
  turnErrorCode : Option String
  turnErrorMessage : Option String
  sessionStatus : String
  outcome : TurnOutcome F

def infraMessage (exception : String) : String :=
  "sandbox execute failed: " ++ exception

/-- The events of the output, with the one of a failed sandbox. -/
def turnEvents (input : TurnInput) : Option (List (Event F)) :=
  (parseEvents py input.executor input.rawOutput).map fun events =>
    match input.infraError with
    | none => events
    | some exception => events ++ [⟨.error, [("message", .str (infraMessage exception))]⟩]

def optionField (value : Option String) : Json F :=
  match value with
  | none => .null
  | some s => .str s

/-- `result.error or infra_error`, where an empty text counts as none. -/
def failureText (result : TurnResult F) (input : TurnInput) : Option String :=
  match result.error with
  | some error => if error = "" then input.infraError.map infraMessage else some error
  | none => input.infraError.map infraMessage

def degradedEvents (input : TurnInput) : List (Event F) :=
  if input.resumeDegraded then
    [⟨.resumeDegraded, [("reason", .str "cli_state_missing"), ("executor", .str input.executor.name)]⟩]
  else []

/-- The record of a turn from its redacted events. -/
def recordTurn (input : TurnInput) (secrets : List (List Char)) (events : List (Event F)) :
    TurnRecord F :=
  let result := extractTurnResult py events
  let failure := failureText result input
  let failed := failure.isSome || input.exitCode != 0
  let summary := String.ofList (redactCredentialValues (result.outputText.take 2000) secrets)
  let usage := result.usage.getD []
  if input.cancelled then
    { events :=
        degradedEvents input ++ events ++
          [⟨.turnFinished, [("seq", .int input.turnSeq), ("status", .str "cancelled")]⟩,
            ⟨.sessionStatus, [("status", .str "cancelled"), ("error_code", .null)]⟩]
      turnStatus := "cancelled"
      resultSummary := summary
      turnUsage := usage
      turnErrorCode := none
      turnErrorMessage := none
      sessionStatus := "cancelled"
      outcome :=
        { sessionId := input.sessionId
          turnSeq := input.turnSeq
          status := "cancelled"
          executor := input.executor.name
          outputText := summary
          cliSessionRef := input.cliSessionRef
          usage := result.usage
          eventCount := events.length
          resumeDegraded := input.resumeDegraded
          errorCode := none
          errorMessage := none } }
  else
    let errorCode := if failed then some "executor_error" else none
    let status := if failed then "failed" else "completed"
    let sessionStatus := if failed then "failed" else "idle"
    { events :=
        degradedEvents input ++ events ++ [⟨.turnFinished,
              [("seq", .int input.turnSeq), ("status", .str status), ("summary", .str summary),
                ("usage", .obj usage), ("error_code", optionField errorCode)]⟩,
            ⟨.sessionStatus,
              [("status", .str sessionStatus), ("error_code", optionField errorCode)]⟩]
      turnStatus := status
      resultSummary := summary
      turnUsage := usage
      turnErrorCode := errorCode
      turnErrorMessage :=
        (failure.map (redactString secrets)).bind fun message =>
          if message = "" then none else some message
      sessionStatus := sessionStatus
      outcome :=
        { sessionId := input.sessionId
          turnSeq := input.turnSeq
          status := sessionStatus
          executor := input.executor.name
          outputText := summary
          cliSessionRef := result.sessionRef.or input.cliSessionRef
          usage := result.usage
          eventCount := events.length
          resumeDegraded := input.resumeDegraded
          errorCode := errorCode
          errorMessage := failure } }

/-- `_execute_turn_tail`; `none` is an error of the adapter. -/
def executeTurnTail (input : TurnInput) (secrets : List (List Char)) : Option (TurnRecord F) :=
  (turnEvents py input).map fun events =>
    recordTurn py input secrets (events.map (redactEvent secrets))

end Yuanlei.CodingTurn
