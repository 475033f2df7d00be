import Yuanlei.Storage.Business
import Mathlib.Data.List.MinMax

/-!
# Row updates of the agent-run repository

The blocks of column assignments and the private helpers of
`agent_run_repository.py`.  Each block is one definition, named after the
operation that performs it, so that an operation and the effect it has on a row
can be compared without unfolding the whole transaction.
-/

namespace Yuanlei

/-! ## Lease tests -/

/-- `lease_expires_at is not None and lease_expires_at > now`. -/
def leaseLive (leaseExpiresAt : Option Time) (now : Time) : Bool :=
  match leaseExpiresAt with
  | none => false
  | some expiry => decide (now < expiry)

namespace AgentRun

/-- The owner test shared by the leased operations: the row is in one of the given
statuses, owned by the caller, and the lease has not expired. -/
def ownedBy (run : AgentRun) (statusOk : RunStatus → Bool) (workerId : String)
    (now : Time) : Bool :=
  statusOk run.status && run.workerId == some workerId && leaseLive run.leaseExpiresAt now

/-- `run.status == "running"` with the caller as the unexpired owner. -/
def runningOwner (run : AgentRun) (workerId : String) (now : Time) : Bool :=
  run.ownedBy (· == .running) workerId now

/-- A leased status with the caller as the unexpired owner. -/
def leasedOwner (run : AgentRun) (workerId : String) (now : Time) : Bool :=
  run.ownedBy RunStatus.isLeased workerId now

/-- `initial_claim` of `mark_running`. -/
def initialClaim (run : AgentRun) : Bool :=
  run.status == .pending || (run.status == .cancelRequested && run.workerId.isNone)

/-- A run nobody has started: it can be cancelled without asking a worker. -/
def notStarted (run : AgentRun) : Bool :=
  run.status == .pending && run.workerId.isNone && run.startedAt.isNone

/-- Rows that still occupy their thread: not terminal, or with runtime cleanup pending. -/
def isActive (run : AgentRun) : Bool :=
  !run.status.isTerminal || run.runtimeCleanupPending

/-! ## Column assignments -/

/-- Assignments of `mark_running`. -/
def claimed (run : AgentRun) (workerId : String) (leaseSeconds : Int) (now : Time) : AgentRun :=
  { run with
    status := if run.status = .pending then .running else run.status
    workerId := some workerId
    heartbeatAt := some now
    leaseExpiresAt := some (now + leaseSeconds)
    startedAt := some (run.startedAt.getD now)
    updatedAt := now }

/-- Assignments of `renew_lease`. -/
def renewed (run : AgentRun) (leaseSeconds : Int) (now : Time) : AgentRun :=
  { run with
    heartbeatAt := some now
    leaseExpiresAt := some (now + leaseSeconds)
    updatedAt := now }

/-- The three lease columns set to null. -/
def leaseCleared (run : AgentRun) : AgentRun :=
  { run with
    workerId := none
    heartbeatAt := none
    leaseExpiresAt := none }

/-- Assignments of `release_lease_for_retry`. -/
def retryReleased (run : AgentRun) (now : Time) : AgentRun :=
  { run.leaseCleared with
    status := .pending
    runtimeCleanupPending := run.runType != .subagent
    updatedAt := now }

/-- Assignments of `set_terminal_status`. -/
def terminated (run : AgentRun) (status : RunStatus) (errorType errorMessage : Option String)
    (tokenUsage : Option JsonObject) (now : Time) : AgentRun :=
  { run.leaseCleared with
    status := status
    errorType := errorType
    errorMessage := errorMessage
    tokenUsage := tokenUsage.getD []
    finishedAt := some now
    updatedAt := now
    runtimeCleanupPending := run.runType != .subagent }

/-- Assignments of `reconcile_expired_leases`. -/
def leaseLost (run : AgentRun) (now : Time) : AgentRun :=
  { run.leaseCleared with
    status := .failed
    errorType := some "worker_lease_expired"
    errorMessage := some "执行 worker 的 lease 已过期；本次运行结果未知，需按 at-least-once 语义检查副作用。"
    finishedAt := some now
    updatedAt := now
    runtimeCleanupPending := run.runType != .subagent }

/-- Assignments of `fail_nonterminal_for_storage_migration`. -/
def storageMigrated (run : AgentRun) (now : Time) : AgentRun :=
  { run.leaseCleared with
    status := .failed
    errorType := some "storage_migration"
    errorMessage := some "存储升级已停止旧运行环境；本次运行未完成"
    finishedAt := some now
    updatedAt := now
    runtimeCleanupPending := false }

/-- Assignments of `_request_cancel_locked` to a run that was never started. -/
def cancelledBeforeStart (run : AgentRun) (now : Time) : AgentRun :=
  { run with
    status := .cancelled
    errorType := some "cancelled"
    errorMessage := some "对话已在执行前取消"
    finishedAt := some now
    updatedAt := now
    runtimeCleanupPending := false }

/-- Assignments of `_request_cancel_locked` to a run that was started. -/
def cancelAsked (run : AgentRun) (now : Time) : AgentRun :=
  { run with
    status := .cancelRequested
    updatedAt := now }

/-- The error columns that a closed execution tree leaves on its descendants. -/
def treeClosed (run : AgentRun) : AgentRun :=
  { run with
    errorType := some "execution_tree_closed"
    errorMessage := some "父运行已结束，请停止共享执行树" }

/-- Assignments of `cancel_active_execution_tree_descendants` to a child that
was never started. -/
def treeCancelled (run : AgentRun) (now : Time) : AgentRun :=
  { run.treeClosed.leaseCleared with
    status := .cancelled
    finishedAt := some now
    updatedAt := now }

/-- Assignments of `cancel_active_execution_tree_descendants` to a started child. -/
def treeCancelAsked (run : AgentRun) (now : Time) : AgentRun :=
  { run.treeClosed with
    status := .cancelRequested
    updatedAt := now }

end AgentRun

namespace AgentRunAttempt

/-- The attempt that `mark_running` opens. -/
def opened (workerId : String) (leaseExpiresAt : Option Time) (now : Time) : AgentRunAttempt where
  workerId := workerId
  startedAt := now
  heartbeatAt := some now
  leaseExpiresAt := leaseExpiresAt
  finishedAt := none
  outcome := none
  errorType := none
  errorMessage := none
  updatedAt := now

/-- Assignments that end an attempt. -/
def finished (attempt : AgentRunAttempt) (outcome : AttemptOutcome)
    (errorType errorMessage : Option String) (now : Time) : AgentRunAttempt :=
  { attempt with
    outcome := some outcome
    errorType := errorType
    errorMessage := errorMessage
    finishedAt := some now
    updatedAt := now }

/-- Assignments that mirror a renewed lease on the open attempt. -/
def heartbeat (attempt : AgentRunAttempt) (leaseExpiresAt : Option Time)
    (now : Time) : AgentRunAttempt :=
  { attempt with
    heartbeatAt := some now
    leaseExpiresAt := leaseExpiresAt
    updatedAt := now }

end AgentRunAttempt

/-- The attempt outcome with the same word as a terminal run status. -/
def RunStatus.attemptOutcome : RunStatus → AttemptOutcome
  | .completed => .completed
  | .cancelled => .cancelled
  | .interrupted => .interrupted
  | _ => .failed

/-- `RUN_STATUS_TO_DELIVERY_STATUS`. -/
def RunStatus.deliveryStatus : RunStatus → Option DeliveryStatus
  | .completed => some .complete
  | .failed => some .failed
  | .cancelled => some .cancelled
  | _ => none

/-! ## Helpers on the whole database -/

namespace Database

/-- Overwrite the row of a run. -/
def setRun (db : Database) (runId : RunId) (run : AgentRun) : Database :=
  { db with runs := db.runs.modify runId fun _ => run }

/-- `coalesce(max(attempt_no), 0)` over the attempts of a run. -/
def maxAttemptNo (db : Database) (runId : RunId) : Nat :=
  ((db.attempts.rows.filter fun e => e.1.1 = runId).map fun e => e.1.2).foldr max 0

/-- `_get_open_attempt`: the open attempt with the greatest number, restricted to
one worker when a worker is given. -/
def getOpenAttempt (db : Database) (runId : RunId) (workerId : Option String) : Option Nat :=
  ((db.attempts.rows.filter fun e =>
      e.1.1 = runId && e.2.finishedAt.isNone && workerId.all (· == e.2.workerId)).map
    fun e => e.1.2).argmax id

/-- Update the open attempt that `_get_open_attempt` returns, if there is one. -/
def updateOpenAttempt (db : Database) (runId : RunId) (workerId : Option String)
    (f : AgentRunAttempt → AgentRunAttempt) : Database :=
  match db.getOpenAttempt runId workerId with
  | none => db
  | some attemptNo => { db with attempts := db.attempts.modify (runId, attemptNo) f }

def finishOpenAttempt (db : Database) (runId : RunId) (workerId : Option String)
    (outcome : AttemptOutcome) (errorType errorMessage : Option String) (now : Time) :
    Database :=
  db.updateOpenAttempt runId workerId fun a => a.finished outcome errorType errorMessage now

def closeOpenAttempts (db : Database) (runId : RunId) (outcome : AttemptOutcome)
    (errorType errorMessage : Option String) (now : Time) : Database :=
  { db with
    attempts := db.attempts.mapRows fun k a =>
      if k.1 = runId ∧ a.finishedAt = none then
        a.finished outcome errorType errorMessage now
      else a }

def projectInputDeliveryStatus (db : Database) (run : AgentRun) : Database :=
  match run.inputMessageId, run.status.deliveryStatus with
  | some messageId, some deliveryStatus =>
    { db with
      messages := db.messages.modify messageId fun m =>
        { m with deliveryStatus := deliveryStatus } }
  | _, _ => db

/-- The running tool audits of a run with the tool call each of them mirrors; a later
row overrides an earlier one with the same tool call, as in the source's dictionary. -/
def runningToolMetadata (db : Database) (runId : RunId) : List (Nat × AuditMetadata) :=
  (db.messages.rows.filterMap fun e =>
    if e.2.runId = some runId ∧ e.2.messageType = toolAuditMessageType ∧
        e.2.executionStatus = some .running then
      e.2.extraMetadata.bind fun metadata =>
        metadata.compatibilityToolCallId.map fun callId => (callId, metadata)
    else none).reverse

/-- `metadata.get("error_message") or f"..."`: an empty text counts as missing. -/
def toolErrorMessage (metadata : AuditMetadata) (executionStatus : ExecutionStatus) : String :=
  match metadata.errorMessage with
  | some text =>
    if text = "" then "Tool 审计由 Run 终态收敛为 " ++ executionStatus.text else text
  | none => "Tool 审计由 Run 终态收敛为 " ++ executionStatus.text

def closeRunningAudits (db : Database) (runId : RunId) (executionStatus : ExecutionStatus)
    (now : Time) (preservePendingToolCalls : Bool) : Database :=
  let toolMetadata := db.runningToolMetadata runId
  { db with
    toolCalls :=
      if preservePendingToolCalls then db.toolCalls
      else
        db.toolCalls.mapRows fun callId call =>
          match toolMetadata.lookup callId with
          | none => call
          | some metadata =>
            { call with
              status := .error
              errorMessage := some (toolErrorMessage metadata executionStatus) }
    messages := db.messages.mapRows fun _ m =>
      if m.runId = some runId ∧ m.messageType ∈ auditMessageTypes ∧
          m.executionStatus = some .running then
        { m with
          executionStatus := some executionStatus
          finishedAt := some (m.finishedAt.getD now) }
      else m }

/-- `_get_matching_output_message`: the message is an assistant output of this
conversation, run and request. -/
def matchingOutputMessage (db : Database) (runId : RunId) (run : AgentRun) (messageId : Nat) :
    Option Message :=
  (db.messages.get messageId).filter fun m =>
    some m.conversationId == run.conversationId && m.runId == some runId &&
      m.requestId == some run.requestId && m.role == .assistant

end Database

end Yuanlei
