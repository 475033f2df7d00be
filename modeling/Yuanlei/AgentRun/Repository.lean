import Yuanlei.AgentRun.Rows

/-!
# The agent-run repository: creation and owner operations

Operations of `AgentRunRepository` as transactions on the business
tables.  An operation locks the rows it decides on, so it sees and writes one
state; an exception rolls it back.  The argument `now` is the clock reading of
`utc_now_naive()` that an operation takes when its caller passes no time.

Main definitions:

- `createRun`: insert a pending run under the table's constraints.
- `markRunning`, `renewLease`, `releaseLeaseForRetry` and
  `setTerminalStatus`: the ownership cycle of a run.
-/

namespace Yuanlei.AgentRunRepository

/-! ## Creation -/

/-- The constraint that an insertion into `agent_runs` can violate. -/
inductive RunConstraint where
  | primaryKey
  | uniqueRequestId
  | nonterminalShape
  | oneActivePerThread
deriving DecidableEq

/-- Arguments of `create_run`, with the source's defaults. -/
structure CreateRun where
  runId : RunId
  conversationThreadId : String
  runtimeScopeId : Option String := none
  agentSlug : String
  uid : String
  requestId : String
  inputPayload : JsonObject
  source : String := "chat"
  channel : String := "web"
  externalId : Option String := none
  originMetadata : Option JsonObject := none
  conversationId : Option Nat := none
  createdByRunId : Option RunId := none
  subagentThreadRelationId : Option RelationId := none
  runType : RunType := .chat
  inputMessageId : Option Nat := none

/-- The row that `create_run` inserts. -/
def CreateRun.row (args : CreateRun) (now : Time) : AgentRun where
  conversationThreadId := args.conversationThreadId
  runtimeScopeId :=
    match args.runtimeScopeId with
    | none => args.conversationThreadId
    | some scope => PyText.strip scope
  runtimeCleanupPending := false
  agentSlug := args.agentSlug
  uid := args.uid
  status := .pending
  requestId := args.requestId
  source := args.source
  channel := args.channel
  externalId := args.externalId
  originMetadata := args.originMetadata.getD []
  conversationId := args.conversationId
  createdByRunId := args.createdByRunId
  subagentThreadRelationId := args.subagentThreadRelationId
  runType := args.runType
  inputMessageId := args.inputMessageId
  outputMessageId := none
  inputPayload := args.inputPayload
  tokenUsage := []
  langfuseTraceId := none
  errorType := none
  errorMessage := none
  workerId := none
  heartbeatAt := none
  leaseExpiresAt := none
  manifest := none
  manifestFingerprint := none
  manifestRecordedAt := none
  startedAt := none
  preparedAt := none
  firstModelRequestAt := none
  firstOutputAt := none
  finishedAt := none
  createdAt := now
  updatedAt := now

/-- The key of `uq_agent_runs_one_active_per_thread`. -/
def threadKey (run : AgentRun) : String × String × String :=
  (run.uid, run.agentSlug, run.conversationThreadId)

/-- `create_run`: insert a pending run, or raise the violated constraint. -/
def createRun (db : Database) (args : CreateRun) (now : Time) :
    Transaction RunConstraint AgentRun :=
  let run := args.row now
  if !run.shapeOk then .error .nonterminalShape
  else if db.runs.rows.any fun e => e.2.requestId == run.requestId then
    .error .uniqueRequestId
  else if db.runs.rows.any fun e =>
      !e.2.status.isTerminal && threadKey e.2 == threadKey run then
    .error .oneActivePerThread
  else
    match db.runs.insert args.runId run with
    | none => .error .primaryKey
    | some runs => .ok (run, { db with runs := runs })

/-! ## Operations of the lease owner -/

def requireLeaseOwner (run : AgentRun) (workerId : String) (now : Time) (action : String) :
    Except String Unit :=
  if run.runningOwner workerId now then .ok ()
  else .error ("只有当前有效 AgentRun lease owner 可以" ++ action)

def setLangfuseTraceId (db : Database) (runId : RunId) (traceId workerId : String)
    (now : Time) : Transaction String (Option AgentRun) :=
  let normalizedTraceId := PyText.strip traceId
  if normalizedTraceId = "" then .error "trace_id 不能为空"
  else if PyText.strip workerId = "" then .error "worker_id 不能为空"
  else
    match db.runs.get runId with
    | none => .ok (none, db)
    | some run =>
      match requireLeaseOwner run workerId now "固化 Langfuse trace" with
      | .error e => .error e
      | .ok () =>
        if run.langfuseTraceId.any fun t => t != "" && t != normalizedTraceId then
          .error "AgentRun 已绑定不同的 Langfuse trace"
        else
          let run' :=
            { run with langfuseTraceId := some normalizedTraceId, updatedAt := now }
          .ok (some run', db.setRun runId run')

def setOutputMessage (db : Database) (runId : RunId) (messageId : Nat) (workerId : String)
    (now : Time) : Transaction String (Option AgentRun) :=
  if PyText.strip workerId = "" then .error "worker_id 不能为空"
  else
    match db.runs.get runId with
    | none => .ok (none, db)
    | some run =>
      match requireLeaseOwner run workerId now "持久化输出消息" with
      | .error e => .error e
      | .ok () =>
        match db.matchingOutputMessage runId run messageId with
        | none => .error "输出消息必须属于同一 conversation、Run 和 request，且角色为 assistant"
        | some _ =>
          let run' := { run with outputMessageId := some messageId, updatedAt := now }
          .ok (some run', db.setRun runId run')

/-- `lock_output_persistence`: it only reads. -/
def lockOutputPersistence (db : Database) (runId : RunId) (workerId : String)
    (conversationThreadId requestId : String) (now : Time) :
    Except String (Option AgentRun) :=
  if PyText.strip workerId = "" then .error "worker_id 不能为空"
  else
    match db.runs.get runId with
    | none => .ok none
    | some run =>
      match requireLeaseOwner run workerId now "持久化输出消息" with
      | .error e => .error e
      | .ok () =>
        if run.conversationThreadId ≠ conversationThreadId ∨ run.requestId ≠ requestId then
          .error "AgentRun 输出必须属于同一 thread 和 request"
        else if run.conversationId = none then
          .error "AgentRun 输出缺少 conversation 归属"
        else .ok (some run)

/-- `lock_memory_write`: it only reads. -/
def lockMemoryWrite (db : Database) (runId : RunId) (uid workerId : String)
    (conversationThreadId requestId : String) (now : Time) :
    Except String (Option AgentRun) :=
  if PyText.strip workerId = "" then .error "worker_id 不能为空"
  else
    match db.runs.get runId with
    | none => .ok none
    | some run =>
      match requireLeaseOwner run workerId now "写入 Memory" with
      | .error e => .error e
      | .ok () =>
        if run.uid ≠ uid ∨ run.conversationThreadId ≠ conversationThreadId ∨
            run.requestId ≠ requestId ∨ run.runType.isTopLevel = false then
          .error "Memory 写入必须属于当前用户的同一顶层 Run、thread 和 request"
        else .ok (some run)

/-- `mark_running`: take or continue the ownership of a run. -/
def markRunning (db : Database) (runId : RunId) (workerId : String) (leaseSeconds : Int)
    (now : Time) : Transaction String (Option AgentRun × Bool) :=
  if PyText.strip workerId = "" then .error "worker_id 不能为空"
  else if leaseSeconds ≤ 0 then .error "lease_seconds 必须大于 0"
  else
    match db.runs.get runId with
    | none => .ok ((none, false), db)
    | some run =>
      if run.status.isTerminal || run.runtimeCleanupPending then .ok ((some run, false), db)
      else if run.initialClaim then
        let run' := run.claimed workerId leaseSeconds now
        let db₁ := (db.setRun runId run').closeOpenAttempts runId .leaseExpired
          (some "worker_lease_expired") (some "执行占有人在取得新所有权前已失联。") now
        match db₁.attempts.insert (runId, db₁.maxAttemptNo runId + 1)
            (.opened workerId run'.leaseExpiresAt now) with
        | none => .error "uq_agent_run_attempts_run_attempt_no"
        | some attempts => .ok ((some run', true), { db₁ with attempts := attempts })
      else if run.leasedOwner workerId now then
        let run' := run.claimed workerId leaseSeconds now
        .ok ((some run', true),
          (db.setRun runId run').updateOpenAttempt runId (some workerId) fun a =>
            a.heartbeat run'.leaseExpiresAt now)
      else .ok ((some run, false), db)

def renewLease (db : Database) (runId : RunId) (workerId : String) (leaseSeconds : Int)
    (now : Time) : Transaction String Bool :=
  if PyText.strip workerId = "" then .error "worker_id 不能为空"
  else if leaseSeconds ≤ 0 then .error "lease_seconds 必须大于 0"
  else
    match db.runs.get runId with
    | none => .ok (false, db)
    | some run =>
      if run.leasedOwner workerId now then
        let run' := run.renewed leaseSeconds now
        .ok (true,
          (db.setRun runId run').updateOpenAttempt runId (some workerId) fun a =>
            a.heartbeat run'.leaseExpiresAt now)
      else .ok (false, db)

def releaseLeaseForRetry (db : Database) (runId : RunId) (workerId : String) (now : Time) :
    Transaction String Bool :=
  match db.runs.get runId with
  | none => .ok (false, db)
  | some run =>
    if run.runningOwner workerId now then
      .ok (true, (db.setRun runId (run.retryReleased now)).finishOpenAttempt runId (some workerId)
          .retryReleased none none now)
    else .ok (false, db)

/-- The guard of `set_terminal_status` on a run that is not terminal. -/
def terminalGuard (run : AgentRun) (status : RunStatus) (workerId : Option String)
    (now : Time) : Bool :=
  match run.status with
  | .pending => workerId.isNone && (status == .failed || status == .cancelled)
  | .running =>
    run.workerId == workerId && leaseLive run.leaseExpiresAt now && status != .cancelled
  | .cancelRequested =>
    run.workerId == workerId && leaseLive run.leaseExpiresAt now && status == .cancelled
  | _ => false

/-- The audit status that a terminal run status leaves on its open audits. -/
def auditStatus : RunStatus → ExecutionStatus
  | .completed => .abandoned
  | .cancelled => .interrupted
  | .interrupted => .interrupted
  | _ => .failed

def setTerminalStatus (db : Database) (runId : RunId) (status : RunStatus)
    (errorType errorMessage : Option String) (tokenUsage : Option JsonObject)
    (workerId : Option String) (now : Time) :
    Transaction String (Option AgentRun × Bool) :=
  if !status.isTerminal then .error ("不支持的 AgentRun 终态：" ++ status.text)
  else
    match db.runs.get runId with
    | none => .ok ((none, false), db)
    | some run =>
      if run.status.isTerminal then
        -- A terminal row with a leftover lease is cleared; the flush also bumps `updated_at`.
        if run.workerId.isSome || run.heartbeatAt.isSome || run.leaseExpiresAt.isSome then
          let run' := { run.leaseCleared with updatedAt := now }
          .ok ((some run', false), db.setRun runId run')
        else .ok ((some run, false), db)
      else if !terminalGuard run status workerId now then .ok ((some run, false), db)
      else if status = .completed ∧
          (run.outputMessageId.bind (db.matchingOutputMessage runId run)).isNone then
        .error "AgentRun 完成前必须绑定同一 Run 的有效 assistant 输出消息"
      else
        let run' := run.terminated status errorType errorMessage tokenUsage now
        .ok ((some run', true),
          (((db.setRun runId run').projectInputDeliveryStatus run').closeRunningAudits runId
              (auditStatus status) now (status == .interrupted)).finishOpenAttempt runId
            workerId status.attemptOutcome errorType errorMessage now)

def recordRunManifest (db : Database) (runId : RunId) (manifest : JsonObject)
    (fingerprint workerId : String) (now : Time) :
    Transaction String (Option AgentRun × Bool) :=
  if PyText.strip workerId = "" then .error "worker_id 不能为空"
  else if PyText.strip fingerprint = "" then .error "fingerprint 不能为空"
  else
    match db.runs.get runId with
    | none => .ok ((none, false), db)
    | some run =>
      match requireLeaseOwner run workerId now "固化运行清单" with
      | .error e => .error e
      | .ok () =>
        if run.manifestFingerprint.isSome then .ok ((some run, false), db)
        else
          let run' :=
            { run with
              manifest := some manifest
              manifestFingerprint := some fingerprint
              manifestRecordedAt := some now
              updatedAt := now }
          .ok ((some run', true), db.setRun runId run')

def recordPrepared (db : Database) (runId : RunId) (workerId : String)
    (observedAt : Option Time) (checkedAt : Time) :
    Transaction String (Option AgentRun × Bool) :=
  match db.runs.get runId with
  | none => .ok ((none, false), db)
  | some run =>
    if run.preparedAt.isSome then .ok ((some run, false), db)
    else
      match requireLeaseOwner run workerId checkedAt "记录运行准备时间" with
      | .error e => .error e
      | .ok () =>
        let eventTime := observedAt.getD checkedAt
        if run.startedAt.all fun startedAt => decide (eventTime < startedAt) then
          .error "AgentRun 准备时间不能早于开始时间"
        else
          let run' := { run with preparedAt := some eventTime, updatedAt := checkedAt }
          .ok ((some run', true), db.setRun runId run')

/-- `record_first_model_request`: the only record that a run with a requested
cancellation still accepts from its owner. -/
def recordFirstModelRequest (db : Database) (runId : RunId) (workerId : String)
    (observedAt : Option Time) (checkedAt : Time) :
    Transaction String (Option AgentRun × Bool) :=
  match db.runs.get runId with
  | none => .ok ((none, false), db)
  | some run =>
    if run.firstModelRequestAt.isSome then .ok ((some run, false), db)
    else if !run.leasedOwner workerId checkedAt then
      .error "只有当前有效 AgentRun lease owner 可以记录首次模型请求时间"
    else
      let eventTime := observedAt.getD checkedAt
      if eventTime < run.createdAt then
        .error "AgentRun 首次模型请求时间不能早于创建时间"
      else
        let run' := { run with firstModelRequestAt := some eventTime, updatedAt := checkedAt }
        .ok ((some run', true), db.setRun runId run')

def recordFirstOutput (db : Database) (runId : RunId) (workerId : String)
    (observedAt : Option Time) (checkedAt : Time) :
    Transaction String (Option AgentRun × Bool) :=
  match db.runs.get runId with
  | none => .ok ((none, false), db)
  | some run =>
    if run.firstOutputAt.isSome then .ok ((some run, false), db)
    else
      match requireLeaseOwner run workerId checkedAt "记录首次模型输出时间" with
      | .error e => .error e
      | .ok () =>
        let eventTime := observedAt.getD checkedAt
        if run.preparedAt.all fun preparedAt => decide (eventTime < preparedAt) then
          .error "AgentRun 首次输出时间不能早于准备完成时间"
        else
          let run' := { run with firstOutputAt := some eventTime, updatedAt := checkedAt }
          .ok ((some run', true), db.setRun runId run')

end Yuanlei.AgentRunRepository
