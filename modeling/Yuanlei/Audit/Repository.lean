import Yuanlei.AgentRun.Operations

/-!
# The audit repositories

The operations of `ModelMessageAuditRepository` and `ToolMessageAuditRepository` as
transactions.  Each of them locks the row of its run with `lock_output_persistence` first and
keeps the lock to its end, so it sees and writes one state.  The ids that the database draws for
new rows are arguments.

Main definitions:

- `ModelMessageAuditRepository.start` and `finish`: the life of a model call.
- `ToolMessageAuditRepository.start`, `complete`, `fail` and
  `observeError`: the life of a tool call and of its compatibility row.
-/

namespace Yuanlei

/-! ## Queries and values -/

def scalarOneOrNone {α : Type} : List α → Except String (Option α)
  | [] => .ok none
  | [a] => .ok (some a)
  | _ => .error "Multiple rows were found when one or none was required"

/-- Two JSON objects have the same keys and values. -/
def JsonObject.sameAs (a b : JsonObject) : Bool :=
  a.all (fun e => b.lookup e.1 == a.lookup e.1) && b.all fun e => a.lookup e.1 == b.lookup e.1

/-- Two optional JSON objects are equal. -/
def sameUsage : Option JsonObject → Option JsonObject → Bool
  | none, none => true
  | some a, some b => a.sameAs b
  | _, _ => false

def canonicalToolOutput : ToolOutput → ToolOutput
  | .object fields => .object (fields.filter fun e => !(e.1 == "id" || e.1 == "name"))
  | .value text => .value text

/-- Two outputs are equal up to the keys that LangGraph adds. -/
def sameOutput (a b : Option ToolOutput) : Bool :=
  match a.map canonicalToolOutput, b.map canonicalToolOutput with
  | none, none => true
  | some (.object fields), some (.object fields') => fields.sameAs fields'
  | some (.value text), some (.value text') => text == text'
  | _, _ => false

/-- `{**old, **new}` on objects. -/
def JsonObject.merge (old new : JsonObject) : JsonObject :=
  new ++ old.filter fun e => (new.lookup e.1).isNone

namespace AuditMetadata

/-- The empty object. -/
def empty : AuditMetadata where
  compatibilityToolCallId := none
  errorMessage := none

/-- `{**old, **new}`. -/
def merge (old new : AuditMetadata) : AuditMetadata where
  compatibilityToolCallId := new.compatibilityToolCallId <|> old.compatibilityToolCallId
  errorMessage := new.errorMessage <|> old.errorMessage
  toolName := new.toolName <|> old.toolName
  input := new.input <|> old.input
  output := new.output <|> old.output
  finishedSequence := new.finishedSequence <|> old.finishedSequence
  awaitingRunTerminal := new.awaitingRunTerminal || old.awaitingRunTerminal
  sourceModelOperationId := new.sourceModelOperationId <|> old.sourceModelOperationId
  toolCalls := new.toolCalls <|> old.toolCalls
  others := old.others.merge new.others

end AuditMetadata

/-- `message.extra_metadata or {}`. -/
def Message.metadata (m : Message) : AuditMetadata :=
  m.extraMetadata.getD .empty

namespace Database

/-- The unique index `uq_messages_run_role_operation_id`. -/
def operationTaken (db : Database) (m : Message) : Bool :=
  m.runId.isSome && m.operationId.isSome && db.messages.rows.any fun e =>
    e.2.runId == m.runId && e.2.role == m.role && e.2.operationId == m.operationId

/-- Insert a message under the constraints of its table. -/
def insertMessage (db : Database) (messageId : Nat) (m : Message) : Except String Database :=
  if db.operationTaken m then .error "uq_messages_run_role_operation_id"
  else
    match db.messages.insert messageId m with
    | none => .error "messages_pkey"
    | some messages => .ok { db with messages := messages }

end Database

/-! ## The caller -/

/-- The identity with which an audit is written. -/
structure AuditCaller where
  runId : RunId
  requestId : String
  threadId : String
  workerId : String

open AgentRunRepository in
/-- `_lock_run`: the run, if the caller owns it. -/
def AuditCaller.lockRun (caller : AuditCaller) (db : Database) (now : Time) :
    Except String AgentRun :=
  match lockOutputPersistence db caller.runId caller.workerId caller.threadId caller.requestId
      now with
  | .error e => .error e
  | .ok none => .error ("AgentRun 不存在: " ++ caller.runId)
  | .ok (some run) => .ok run

/-- `_require_same_owner` of both repositories. -/
def requireSameOwner (m : Message) (run : AgentRun) (requestId : String) (role : MessageRole)
    (messageType error : String) : Except String Unit :=
  if some m.conversationId ≠ run.conversationId ∨ m.requestId ≠ some requestId ∨ m.role ≠ role ∨
      m.messageType ≠ messageType then
    .error error
  else .ok ()

/-! ## Model calls -/

namespace ModelMessageAuditRepository

def get (db : Database) (runId : RunId) (operationId : String) :
    Except String (Option (Nat × Message)) :=
  scalarOneOrNone (db.messages.rows.filter fun e =>
    e.2.runId == some runId && e.2.operationId == some operationId && e.2.role == .assistant)

/-- `_require_same_owner`. -/
def requireOwner (m : Message) (run : AgentRun) (requestId : String) : Except String Unit :=
  requireSameOwner m run requestId .assistant modelAuditMessageType
    "Model 审计消息必须属于同一 Run、request 和 conversation"

/-- The row that `start` inserts. -/
def startedRow (caller : AuditCaller) (run : AgentRun) (operationId : String) (sequence : Int)
    (startedAt : Time) (metadata : AuditMetadata) (now : Time) : Message where
  conversationId := run.conversationId.getD 0
  role := .assistant
  content := ""
  messageType := modelAuditMessageType
  extraMetadata := some metadata
  runId := some caller.runId
  requestId := some caller.requestId
  deliveryStatus := .complete
  finishedAt := none
  executionStatus := some .running
  createdAt := some now
  operationId := some operationId
  startedAt := some startedAt
  sequence := some sequence

/-- `start`: the message of the call, and whether it is new. -/
def start (db : Database) (caller : AuditCaller) (operationId : String) (sequence : Int)
    (startedAt : Time) (metadata : AuditMetadata) (messageId : Nat) (now : Time) :
    Transaction String (Nat × Bool) :=
  let normalizedOperationId := PyText.strip operationId
  if normalizedOperationId = "" then .error "Model operation_id 不能为空"
  else if sequence < 0 then .error "Model sequence 不能为负数"
  else
    match caller.lockRun db now with
    | .error e => .error e
    | .ok run =>
      match get db caller.runId normalizedOperationId with
      | .error e => .error e
      | .ok (some (id, existing)) =>
        match requireOwner existing run caller.requestId with
        | .error e => .error e
        | .ok () =>
          if existing.sequence ≠ some sequence then
            .error "重复 Model start 与已持久化 sequence 不一致"
          else .ok ((id, false), db)
      | .ok none =>
        match db.insertMessage messageId
            (startedRow caller run normalizedOperationId sequence startedAt metadata now) with
        | .error e => .error e
        | .ok db' => .ok ((messageId, true), db')

/-- Assignments of `finish`. -/
def finishedRow (m : Message) (content : String) (finishedAt : Time) (durationMs : Option Int)
    (usage : Option JsonObject) (metadata : AuditMetadata) : Message :=
  { m with
    content := content
    finishedAt := some finishedAt
    durationMs := durationMs
    executionStatus := some .completed
    usage := usage
    extraMetadata := some (m.metadata.merge metadata) }

/-- The stored text of an execution status, as Python formats it. -/
def statusText : Option ExecutionStatus → String
  | none => "None"
  | some status => status.text

def finish (db : Database) (caller : AuditCaller) (operationId content : String)
    (finishedAt : Time) (durationMs : Option Int) (usage : Option JsonObject)
    (metadata : AuditMetadata) (now : Time) : Transaction String Nat :=
  let normalizedOperationId := PyText.strip operationId
  if normalizedOperationId = "" then .error "Model operation_id 不能为空"
  else if durationMs.any (· < 0) then .error "Model duration_ms 不能为负数"
  else
    match caller.lockRun db now with
    | .error e => .error e
    | .ok run =>
      match get db caller.runId normalizedOperationId with
      | .error e => .error e
      | .ok none => .error "Model finish 缺少对应的 start 事实"
      | .ok (some (id, m)) =>
        match requireOwner m run caller.requestId with
        | .error e => .error e
        | .ok () =>
          if m.executionStatus = some .completed then
            if m.content ≠ content ∨ sameUsage m.usage usage = false then
              .error "已完成 Model 审计事实不能被不同结果覆盖"
            else .ok (id, db)
          else if m.executionStatus ≠ some .running then
            .error ("Model 审计事实不能从 " ++ statusText m.executionStatus ++ " 转为 completed")
          else
            .ok (id, { db with
              messages := db.messages.modify id fun m =>
                finishedRow m content finishedAt durationMs usage metadata })

end ModelMessageAuditRepository

/-! ## Tool calls -/

namespace ToolMessageAuditRepository

def get (db : Database) (runId : RunId) (operationId : String) :
    Except String (Option (Nat × Message)) :=
  scalarOneOrNone (db.messages.rows.filter fun e =>
    e.2.runId == some runId && e.2.operationId == some operationId &&
      e.2.messageType == toolAuditMessageType)

/-- `_require_same_owner`. -/
def requireOwner (m : Message) (run : AgentRun) (requestId : String) : Except String Unit :=
  requireSameOwner m run requestId .tool toolAuditMessageType
    "Tool 审计消息必须属于同一 Run、request 和 conversation"

def requireSameStart (m : Message) (toolName : String) (toolInput : JsonObject)
    (sequence : Int) : Except String Unit :=
  if m.metadata.toolName ≠ some toolName ∨ sameUsage m.metadata.input (some toolInput) = false ∨
      m.sequence ≠ some sequence then
    .error "重复 Tool start 与已持久化事实不一致"
  else .ok ()

/-- The creator of a resumed run, if it names one. -/
def resumeParent (run : AgentRun) : Option RunId :=
  if run.runType = .resume then run.createdByRunId.filter (· ≠ "") else none

/-- The loop of `_source_run_ids`: the runs that were found, and the next one. -/
def sourceChain (db : Database) (conversationId : Option Nat) (seen : List RunId)
    (parentId : Option RunId) : Except String (List RunId) :=
  match parentId with
  | none => .ok seen
  | some parentId =>
    if hseen : parentId ∈ seen then .error "Resume Run ancestry 存在循环"
    else
      match hget : db.runs.get parentId with
      | none => .error "Resume Run ancestry 与当前 conversation 不一致"
      | some parent =>
        if parent.conversationId ≠ conversationId then
          .error "Resume Run ancestry 与当前 conversation 不一致"
        else sourceChain db conversationId (seen ++ [parentId]) (resumeParent parent)
  termination_by (db.runs.keys.filter (· ∉ seen)).length
  decreasing_by
    have hkey : parentId ∈ db.runs.keys := by
      by_contra hnot
      have hnone := (db.runs.get_eq_none_iff parentId).mpr hnot
      rw [hget] at hnone
      cases hnone
    have hsplit : db.runs.keys.filter (· ∉ seen ++ [parentId]) =
        (db.runs.keys.filter (· ∉ seen)).filter (· ≠ parentId) := by
      rw [List.filter_filter]
      apply List.filter_congr
      intro key _
      simp [and_comm]
    rw [hsplit]
    apply List.length_filter_lt_length_iff_exists.mpr
    exact ⟨parentId, by simp [hkey, hseen], by simp⟩

def sourceRunIds (db : Database) (runId : RunId) (run : AgentRun) : Except String (List RunId) :=
  sourceChain db run.conversationId [runId] (resumeParent run)

/-- Row order `created_at desc, sequence desc, id desc`. -/
def latestFirst (a b : Nat × Message) : Prop :=
  let x := (a.2.createdAt.getD 0, a.2.sequence.getD 0)
  let y := (b.2.createdAt.getD 0, b.2.sequence.getD 0)
  y.1 < x.1 ∨ y.1 = x.1 ∧ (y.2 < x.2 ∨ y.2 = x.2 ∧ b.1 ≤ a.1)

instance : DecidableRel latestFirst := fun _ _ =>
  inferInstanceAs (Decidable (_ ∨ _ ∧ (_ ∨ _ ∧ _)))

def findSourceModelMessage (db : Database) (runId : RunId) (run : AgentRun)
    (toolCallId : String) : Except String (Option (Nat × Message)) :=
  match sourceRunIds db runId run with
  | .error e => .error e
  | .ok sourceIds =>
    let messages := (db.messages.rows.filter fun e =>
      e.2.runId.any (sourceIds.contains ·) && e.2.role == .assistant &&
        e.2.operationId.isSome && e.2.messageType == modelAuditMessageType).insertionSort
          latestFirst
    .ok (messages.find? fun e => e.2.metadata.toolCalls.any (·.contains toolCallId))

def getToolCallForMessage (db : Database) (messageId : Nat) (operationId : String) :
    Except String (Option (Nat × ToolCall)) :=
  scalarOneOrNone (db.toolCalls.rows.filter fun e =>
    e.2.messageId == messageId && e.2.langgraphToolCallId == some operationId)

/-- The compatibility row of a new tool call: a new one, or the pending one of its message. -/
def openToolCall (db : Database) (sourceId : Nat) (operationId toolName : String)
    (toolInput : JsonObject) (callId : Nat) : Transaction String Nat :=
  match getToolCallForMessage db sourceId operationId with
  | .error e => .error e
  | .ok none =>
    match db.toolCalls.insert callId
        { messageId := sourceId
          status := .pending
          errorMessage := none
          langgraphToolCallId := some operationId
          toolName := toolName
          toolInput := some toolInput } with
    | none => .error "tool_calls_pkey"
    | some toolCalls => .ok (callId, { db with toolCalls := toolCalls })
  | .ok (some (id, call)) =>
    if call.status ≠ .pending then
      .error "已结束 ToolCall 不能开始新的 ToolMessage lifecycle"
    else
      .ok (id, { db with
        toolCalls := db.toolCalls.modify id fun call =>
          { call with toolName := toolName, toolInput := some toolInput } })

/-- The row that `start` inserts. -/
def startedRow (caller : AuditCaller) (run : AgentRun) (operationId : String) (sequence : Int)
    (startedAt : Time) (metadata : AuditMetadata) (now : Time) : Message where
  conversationId := run.conversationId.getD 0
  role := .tool
  content := ""
  messageType := toolAuditMessageType
  extraMetadata := some metadata
  runId := some caller.runId
  requestId := some caller.requestId
  deliveryStatus := .complete
  finishedAt := none
  executionStatus := some .running
  createdAt := some now
  operationId := some operationId
  startedAt := some startedAt
  sequence := some sequence

/-- `start`: the message of the call, and whether it is new. -/
def start (db : Database) (caller : AuditCaller) (toolCallId toolName : String)
    (toolInput : JsonObject) (sequence : Int) (startedAt : Time) (metadata : AuditMetadata)
    (messageId callId : Nat) (now : Time) : Transaction String (Nat × Bool) :=
  let operationId := PyText.strip toolCallId
  let normalizedName := PyText.strip toolName
  if operationId = "" then .error "Tool tool_call_id 不能为空"
  else if normalizedName = "" then .error "Tool tool_name 不能为空"
  else if sequence < 0 then .error "Tool sequence 不能为负数"
  else
    match caller.lockRun db now with
    | .error e => .error e
    | .ok run =>
      match get db caller.runId operationId with
      | .error e => .error e
      | .ok (some (id, existing)) =>
        match requireOwner existing run caller.requestId with
        | .error e => .error e
        | .ok () =>
          match requireSameStart existing normalizedName toolInput sequence with
          | .error e => .error e
          | .ok () => .ok ((id, false), db)
      | .ok none =>
        match findSourceModelMessage db caller.runId run operationId with
        | .error e => .error e
        | .ok none => .error "Tool start 无法关联声明该 tool_call_id 的 Model Message"
        | .ok (some (sourceId, source)) =>
          let auditMetadata :=
            { metadata with
              toolName := some normalizedName
              input := some toolInput
              sourceModelOperationId := source.operationId }
          match db.insertMessage messageId
              (startedRow caller run operationId sequence startedAt auditMetadata now) with
          | .error e => .error e
          | .ok db₁ =>
            match openToolCall db₁ sourceId operationId normalizedName toolInput
                callId with
            | .error e => .error e
            | .ok (compatibilityId, db₂) =>
              .ok ((messageId, true), { db₂ with
                messages := db₂.messages.modify messageId fun m =>
                  { m with
                    extraMetadata := some { auditMetadata with
                      compatibilityToolCallId := some compatibilityId } } })

def requireCompatibilityToolCall (db : Database) (metadata : AuditMetadata)
    (operationId : String) : Except String Nat :=
  match metadata.compatibilityToolCallId with
  | none => .error "ToolMessage 缺少 ToolCall 兼容投影"
  | some callId =>
    match db.toolCalls.get callId with
    | none => .error "ToolMessage 缺少 ToolCall 兼容投影"
    | some call =>
      if call.langgraphToolCallId ≠ some operationId then
        .error "ToolMessage 缺少 ToolCall 兼容投影"
      else .ok callId

/-- The terminal status of a tool call with the status of its compatibility row. -/
inductive ToolEnd where
  | completed
  | failed
deriving DecidableEq

namespace ToolEnd

def executionStatus : ToolEnd → ExecutionStatus
  | completed => .completed
  | failed => .failed

def toolCallStatus : ToolEnd → ToolCallStatus
  | completed => .success
  | failed => .error

end ToolEnd

/-- The result with which a tool call ends. -/
structure ToolResult where
  output : Option ToolOutput
  content : String
  errorMessage : Option String
  finishedAt : Time
  durationMs : Option Int
  finishedSequence : Option Int

/-- Assignments of `_finish` to the message. -/
def finishedRow (m : Message) (status : ToolEnd) (result : ToolResult) : Message :=
  { m with
    content := result.content
    finishedAt := some (m.finishedAt.getD result.finishedAt)
    durationMs := result.durationMs <|> m.durationMs
    executionStatus := some status.executionStatus
    extraMetadata := some { m.metadata with
      output := result.output
      errorMessage := result.errorMessage
      finishedSequence := result.finishedSequence <|> m.metadata.finishedSequence } }

/-- Assignments of `_finish` to the compatibility row. -/
def finishedCall (call : ToolCall) (status : ToolEnd) (result : ToolResult) : ToolCall :=
  { call with
    toolOutput := if result.content = "" then none else some result.content
    status := status.toolCallStatus
    errorMessage := result.errorMessage }

def finish (db : Database) (caller : AuditCaller) (toolCallId : String) (status : ToolEnd)
    (result : ToolResult) (now : Time) : Transaction String Nat :=
  let operationId := PyText.strip toolCallId
  if operationId = "" then .error "Tool tool_call_id 不能为空"
  else if result.durationMs.any (· < 0) then .error "Tool duration_ms 不能为负数"
  else if result.finishedSequence.any (· < 0) then .error "Tool finished_sequence 不能为负数"
  else
    match caller.lockRun db now with
    | .error e => .error e
    | .ok run =>
      match get db caller.runId operationId with
      | .error e => .error e
      | .ok none => .error "Tool terminal 缺少对应的 start 事实"
      | .ok (some (id, m)) =>
        match requireOwner m run caller.requestId with
        | .error e => .error e
        | .ok () =>
          if m.executionStatus = some status.executionStatus then
            if m.content ≠ result.content ∨ m.metadata.errorMessage ≠ result.errorMessage ∨
                sameOutput m.metadata.output result.output = false then
              .error "已关闭 Tool 审计事实不能被不同结果覆盖"
            else .ok (id, db)
          else if m.executionStatus ≠ some .running then
            .error ("Tool 审计事实不能从 " ++
              ModelMessageAuditRepository.statusText m.executionStatus ++ " 转为 " ++
              status.executionStatus.text)
          else
            match requireCompatibilityToolCall db m.metadata operationId with
            | .error e => .error e
            | .ok callId =>
              .ok (id, { db with
                messages := db.messages.modify id fun m => finishedRow m status result
                toolCalls := db.toolCalls.modify callId fun call =>
                  finishedCall call status result })

def complete (db : Database) (caller : AuditCaller) (toolCallId : String)
    (output : Option ToolOutput) (content : String) (finishedAt : Time) (durationMs : Option Int)
    (finishedSequence : Option Int) (now : Time) : Transaction String Nat :=
  finish db caller toolCallId .completed
    ⟨output, content, none, finishedAt, durationMs, finishedSequence⟩ now

def fail (db : Database) (caller : AuditCaller) (toolCallId errorMessage : String)
    (output : Option ToolOutput) (content : String) (finishedAt : Time) (durationMs : Option Int)
    (finishedSequence : Option Int) (now : Time) : Transaction String Nat :=
  finish db caller toolCallId .failed
    ⟨output, content, some errorMessage, finishedAt, durationMs, finishedSequence⟩ now

/-- Assignments of `observe_error`. -/
def observedRow (m : Message) (errorMessage : String) (finishedAt : Time)
    (durationMs : Option Int) (finishedSequence : Int) : Message :=
  { m with
    extraMetadata := some { m.metadata with
      errorMessage := some errorMessage
      finishedSequence := some finishedSequence
      awaitingRunTerminal := true }
    finishedAt := some finishedAt
    durationMs := durationMs }

def observeError (db : Database) (caller : AuditCaller) (toolCallId errorMessage : String)
    (finishedAt : Time) (durationMs : Option Int) (finishedSequence : Int) (now : Time) :
    Transaction String Nat :=
  let operationId := PyText.strip toolCallId
  if operationId = "" then .error "Tool tool_call_id 不能为空"
  else if durationMs.any (· < 0) then .error "Tool duration_ms 不能为负数"
  else if finishedSequence < 0 then .error "Tool finished_sequence 不能为负数"
  else
    match caller.lockRun db now with
    | .error e => .error e
    | .ok run =>
      match get db caller.runId operationId with
      | .error e => .error e
      | .ok none => .error "Tool error 缺少对应的 start 事实"
      | .ok (some (id, m)) =>
        match requireOwner m run caller.requestId with
        | .error e => .error e
        | .ok () =>
          if m.executionStatus ≠ some .running then
            if m.metadata.errorMessage ≠ some errorMessage then
              .error "已关闭 Tool 审计事实不能被不同错误覆盖"
            else .ok (id, db)
          else
            .ok (id, { db with
              messages := db.messages.modify id fun m =>
                observedRow m errorMessage finishedAt durationMs finishedSequence })

end ToolMessageAuditRepository

end Yuanlei
