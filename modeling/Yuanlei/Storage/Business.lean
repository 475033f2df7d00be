import Yuanlei.Lib.Table
import Yuanlei.Lib.PyText
import Mathlib.Data.PNat.Basic

/-!
# Business tables

Rows of the PostgreSQL business schema that the agent-run services read and
write, and the database state made of them.  Columns that no modelled operation
reads or writes are left out.  Time stamps are naive UTC clock ticks, and
durations are counted in the same ticks.  JSON columns are association lists
from a key to the serialised value, and every primary or unique key that the
services rely on is the key of its table.

Main definitions:

- `AgentRunRequest`: one request of a thread's queue.
- `Database`: the tables together.
-/

namespace Yuanlei

/-- Naive UTC time in ticks of the clock. -/
abbrev Time := Int

abbrev RunId := String

/-- The autoincrement key of `subagent_threads`, which starts at one. -/
abbrev RelationId := ℕ+

/-- A JSON object column: keys with their serialised values. -/
abbrev JsonObject := List (String × String)

/-! ## Agent runs -/

/-- The column `agent_runs.status`. -/
inductive RunStatus where
  | pending
  | running
  | cancelRequested
  | completed
  | failed
  | cancelled
  | interrupted
deriving DecidableEq

namespace RunStatus

/-- The stored text of a status. -/
def text : RunStatus → String
  | pending => "pending"
  | running => "running"
  | cancelRequested => "cancel_requested"
  | completed => "completed"
  | failed => "failed"
  | cancelled => "cancelled"
  | interrupted => "interrupted"

/-- Membership in `AGENT_RUN_TERMINAL_STATUSES`. -/
def isTerminal : RunStatus → Bool
  | completed | failed | cancelled | interrupted => true
  | pending | running | cancelRequested => false

/-- Membership in `LEASED_RUN_STATUSES`. -/
def isLeased : RunStatus → Bool
  | running | cancelRequested => true
  | _ => false

end RunStatus

/-- The column `agent_runs.run_type`. -/
inductive RunType where
  | chat
  | resume
  | subagent
deriving DecidableEq

/-- Membership in `TOP_LEVEL_RUN_TYPES`. -/
def RunType.isTopLevel : RunType → Bool
  | chat | resume => true
  | subagent => false

/-- A row of `agent_runs`; its id is the key of the table. -/
structure AgentRun where
  conversationThreadId : String
  runtimeScopeId : String
  runtimeCleanupPending : Bool
  agentSlug : String
  uid : String
  status : RunStatus
  requestId : String
  source : String
  channel : String
  externalId : Option String
  originMetadata : JsonObject
  conversationId : Option Nat
  createdByRunId : Option RunId
  subagentThreadRelationId : Option RelationId
  runType : RunType
  inputMessageId : Option Nat
  outputMessageId : Option Nat
  inputPayload : JsonObject
  tokenUsage : JsonObject
  langfuseTraceId : Option String
  errorType : Option String
  errorMessage : Option String
  workerId : Option String
  heartbeatAt : Option Time
  leaseExpiresAt : Option Time
  manifest : Option JsonObject
  manifestFingerprint : Option String
  manifestRecordedAt : Option Time
  startedAt : Option Time
  preparedAt : Option Time
  firstModelRequestAt : Option Time
  firstOutputAt : Option Time
  finishedAt : Option Time
  createdAt : Time
  updatedAt : Time

/-- The check constraint `ck_agent_runs_nonterminal_shape`. -/
def AgentRun.shapeOk (run : AgentRun) : Bool :=
  run.status.isTerminal ||
    (run.runtimeScopeId != "" && run.conversationThreadId != "" &&
      match run.runType with
      | .chat =>
        run.runtimeScopeId == run.conversationThreadId && run.createdByRunId.isNone &&
          run.subagentThreadRelationId.isNone
      | .resume =>
        run.runtimeScopeId == run.conversationThreadId && run.createdByRunId.isSome &&
          run.subagentThreadRelationId.isNone
      | .subagent => run.createdByRunId.isSome && run.subagentThreadRelationId.isSome)

/-- The column `agent_run_attempts.outcome`. -/
inductive AttemptOutcome where
  | completed
  | failed
  | cancelled
  | interrupted
  | retryReleased
  | leaseExpired
deriving DecidableEq

/-- A row of `agent_run_attempts`; its key is the unique pair of run id and
`attempt_no`. -/
structure AgentRunAttempt where
  workerId : String
  startedAt : Time
  heartbeatAt : Option Time
  leaseExpiresAt : Option Time
  finishedAt : Option Time
  outcome : Option AttemptOutcome
  errorType : Option String
  errorMessage : Option String
  updatedAt : Time
deriving DecidableEq

/-! ## Messages and tool calls -/

inductive MessageRole where
  | user
  | assistant
  | system
  | tool
deriving DecidableEq

/-- The column `messages.delivery_status`. -/
inductive DeliveryStatus where
  | complete
  | queued
  | dispatched
  | rejected
  | failed
  | cancelled
deriving DecidableEq

/-- The column `messages.execution_status`. -/
inductive ExecutionStatus where
  | running
  | completed
  | failed
  | interrupted
  | abandoned
deriving DecidableEq

/-- The stored text of an execution status. -/
def ExecutionStatus.text : ExecutionStatus → String
  | running => "running"
  | completed => "completed"
  | failed => "failed"
  | interrupted => "interrupted"
  | abandoned => "abandoned"

/-- The output of a tool: a JSON object, or another serialised value. -/
inductive ToolOutput where
  | object (fields : JsonObject)
  | value (text : String)
deriving DecidableEq

/-- The keys of `messages.extra_metadata` that the audit of model and tool calls reads.  Of
`tool_calls` it reads the ids only. -/
structure AuditMetadata where
  compatibilityToolCallId : Option Nat
  errorMessage : Option String
  toolName : Option String := none
  input : Option JsonObject := none
  output : Option ToolOutput := none
  finishedSequence : Option Int := none
  awaitingRunTerminal : Bool := false
  sourceModelOperationId : Option String := none
  toolCalls : Option (List String) := none
  others : JsonObject := []
deriving DecidableEq

/-- A row of `messages`. -/
structure Message where
  conversationId : Nat
  role : MessageRole
  content : String
  messageType : String
  extraMetadata : Option AuditMetadata
  runId : Option RunId
  requestId : Option String
  deliveryStatus : DeliveryStatus
  finishedAt : Option Time
  executionStatus : Option ExecutionStatus
  createdAt : Option Time := none
  operationId : Option String := none
  startedAt : Option Time := none
  durationMs : Option Int := none
  sequence : Option Int := none
  usage : Option JsonObject := none
deriving DecidableEq

/-- The constant `MODEL_AUDIT_MESSAGE_TYPE`. -/
def modelAuditMessageType : String := "model_audit"

/-- The constant `TOOL_AUDIT_MESSAGE_TYPE`. -/
def toolAuditMessageType : String := "tool_audit"

/-- The constant `AUDIT_MESSAGE_TYPES`. -/
def auditMessageTypes : List String := [modelAuditMessageType, toolAuditMessageType]

/-- The column `tool_calls.status`. -/
inductive ToolCallStatus where
  | pending
  | success
  | error
deriving DecidableEq

/-- A row of `tool_calls`. -/
structure ToolCall where
  messageId : Nat
  status : ToolCallStatus
  errorMessage : Option String
  langgraphToolCallId : Option String := none
  toolName : String := ""
  toolInput : Option JsonObject := none
  toolOutput : Option String := none
deriving DecidableEq

/-! ## Conversations, projects and request queues -/

/-- The column `conversations.status`. -/
inductive ConversationStatus where
  | active
  | archived
  | subagent
  | deleted
deriving DecidableEq

/-- A row of `conversations`; its key is the unique thread id.  The column
`agent_id` holds the slug of the agent. -/
structure Conversation where
  id : Nat
  uid : String
  agentId : String
  status : ConversationStatus
  projectId : String
deriving DecidableEq

inductive ProjectStatus where
  | active
  | deleted
deriving DecidableEq

/-- The column `projects.directory_mode`, as `ck_projects_directory_mode` allows it. -/
inductive DirectoryMode where
  | managed
  | linked
deriving DecidableEq

/-- A row of `projects`. -/
structure Project where
  uid : String
  status : ProjectStatus
  workdirPath : String
  directoryMode : DirectoryMode
deriving DecidableEq

/-- A row of `subagent_threads`. -/
structure SubagentThread where
  uid : String
  parentConversationId : Nat
  childConversationId : Nat
  childThreadId : String
  subagentSlug : String
  createdByRunId : RunId
deriving DecidableEq

/-- The column `agent_run_requests.queue_policy`. -/
inductive QueuePolicy where
  | enqueue
  | reject
  | steer
deriving DecidableEq

/-- The column `agent_run_requests.status`. -/
inductive RequestStatus where
  | queued
  | dispatched
  | cancelled
  | rejected
  | failed
deriving DecidableEq

/-- Membership in `REQUEST_TERMINAL_STATUSES`. -/
def RequestStatus.isTerminal : RequestStatus → Bool
  | cancelled | rejected | failed => true
  | queued | dispatched => false

/-- A row of `agent_run_requests`; its key is the unique `request_id`, and
`seq` is the autoincrement id that breaks ties in the queue order. -/
structure AgentRunRequest where
  seq : Nat
  uid : String
  agentSlug : String
  conversationThreadId : String
  source : String
  channel : String
  externalId : Option String
  originMetadata : JsonObject
  queuePolicy : QueuePolicy
  status : RequestStatus
  inputMessageId : Nat
  dispatchedRunId : Option RunId
  inputPayload : JsonObject
  createdAt : Time
  dispatchedAt : Option Time
  updatedAt : Time
deriving DecidableEq

/-! ## The database -/

/-- The tables of the business schema. -/
structure Database where
  runs : Table RunId AgentRun
  attempts : Table (RunId × Nat) AgentRunAttempt
  scopes : Table RunId String
  messages : Table Nat Message
  toolCalls : Table Nat ToolCall
  conversations : Table String Conversation
  projects : Table String Project
  subagentThreads : Table RelationId SubagentThread
  requests : Table String AgentRunRequest

/-- The schema right after its creation. -/
def Database.empty : Database where
  runs := .empty
  attempts := .empty
  scopes := .empty
  messages := .empty
  toolCalls := .empty
  conversations := .empty
  projects := .empty
  subagentThreads := .empty
  requests := .empty

/-- A transaction either raises and is rolled back, or returns a result with the
state it commits. -/
abbrev Transaction (ε α : Type) := Except ε (α × Database)

/-- The state after the session context has committed or rolled back. -/
def Database.after {ε α : Type} (db : Database) : Transaction ε α → Database
  | .ok (_, db') => db'
  | .error _ => db

variable {ε α : Type}

@[simp]
theorem Database.after_ok (db db' : Database) (a : α) :
    db.after (.ok (a, db') : Transaction ε α) = db' :=
  rfl

end Yuanlei
