import Yuanlei.Queue.Lookups

/-!
# Dispatching the request queue

The part of `agent_request_queue_service.py` that turns the head of a
thread's queue into a run, with the scope mapping of
`run_scope_service.py`.  Each function runs inside the transaction of its
caller, which holds the lock of the conversation.

Main definitions:

- `getQueueState`: the state of a queue from its head and the newest runs.
- `dispatchLockedHead`: create the run of a locked head in a savepoint.
-/

namespace Yuanlei

open AgentRunRepository

/-! ## Execution scopes -/

def resolveRunScopeKey (db : Database) (runId : RunId) (run : AgentRun) : String :=
  match db.scopes.get runId with
  | some scopeKey =>
    if scopeKey ≠ "" then scopeKey
    else if run.runtimeScopeId ≠ "" then run.runtimeScopeId
    else run.conversationThreadId
  | none =>
    if run.runtimeScopeId ≠ "" then run.runtimeScopeId else run.conversationThreadId

/-- `bind_run_scope`: only a scope other than the thread is mapped. -/
def bindRunScope (db : Database) (runId : RunId) (scopeKey threadId : String) : Database :=
  let key := PyText.strip scopeKey
  if key = "" ∨ key = PyText.strip threadId then db
  else { db with scopes := db.scopes.upsert runId key }

def inheritRunScope (db : Database) (parentId : RunId) (parent : AgentRun) (childId : RunId)
    (childThreadId : String) : Database :=
  bindRunScope db childId (resolveRunScopeKey db parentId parent) childThreadId

/-! ## The state of a queue -/

inductive QueueStatus where
  | idle
  | running
  | interrupted
  | paused
  | ready
deriving DecidableEq

/-- The projection that `_get_queue_state` returns. -/
structure QueueState where
  status : QueueStatus
  pausedReason : Option RunStatus := none
  blockingRunId : Option RunId := none
  canContinue : Bool := false

def getQueueState (db : Database) (uid agentSlug threadId : String)
    (head : Option AgentRunRequest) : Except ServiceError QueueState :=
  match head with
  | none => .ok { status := .idle }
  | some head =>
    match db.getActiveRunByRuntimeScopeForUser threadId uid with
    | some _ => .ok { status := .running }
    | none =>
      match db.getLatestChatOrResumeRun uid agentSlug threadId with
      | none => .ok { status := .ready }
      | some (latestId, latest) =>
        if latest.status = .interrupted then
          .ok { status := .interrupted, blockingRunId := some latestId }
        else if latest.status = .failed ∨ latest.status = .cancelled then
          match latest.finishedAt with
          | none =>
            .error (.runtimeError ("Terminal run " ++ latestId ++ " is missing finished_at"))
          | some finishedAt =>
            if head.createdAt ≤ finishedAt then
              .ok
                { status := .paused
                  pausedReason := some latest.status
                  blockingRunId := some latestId
                  canContinue := true }
            else .ok { status := .ready }
        else .ok { status := .ready }

/-! ## Dispatch -/

structure DispatchResult where
  requestId : String
  runId : RunId
  workdirBinding : WorkdirBinding

/-- What a dispatch takes from outside the tables: the run id drawn by `uuid4` and the
scope that `resolve_dispatch_runtime_scope` reads off the sandbox policy. -/
structure DispatchPlan where
  runId : RunId
  runtimeScope : String

/-- The arguments with which a head is turned into a run. -/
def chatRun (requestId : String) (head : AgentRunRequest) (binding : WorkdirBinding)
    (runId : RunId) : CreateRun where
  runId := runId
  conversationThreadId := head.conversationThreadId
  runtimeScopeId := some head.conversationThreadId
  agentSlug := head.agentSlug
  uid := head.uid
  requestId := requestId
  inputPayload := head.inputPayload
  source := head.source
  channel := head.channel
  externalId := head.externalId
  originMetadata := some head.originMetadata
  conversationId := some binding.conversationId
  runType := .chat
  inputMessageId := some head.inputMessageId

/-- Columns that `mark_dispatched` sets. -/
def AgentRunRequest.dispatched (request : AgentRunRequest) (runId : RunId) (now : Time) :
    AgentRunRequest :=
  { request with
    status := .dispatched
    dispatchedRunId := some runId
    dispatchedAt := some now
    updatedAt := now }

def markDispatched (db : Database) (requestId : String) (runId : RunId) (now : Time) : Database :=
  { db with
    requests := db.requests.modify requestId fun request =>
      if request.status = .queued then request.dispatched runId now else request }

/-- The writes of a dispatch after its run was inserted. -/
def linkDispatch (db : Database) (requestId : String) (head : AgentRunRequest)
    (plan : DispatchPlan) (now : Time) : Database :=
  let db₁ := bindRunScope db plan.runId plan.runtimeScope head.conversationThreadId
  let db₂ :=
    { db₁ with
      messages := db₁.messages.modify head.inputMessageId fun m =>
        { m with runId := some plan.runId, deliveryStatus := .dispatched } }
  markDispatched db₂ requestId plan.runId now

/-- `_dispatch_locked_head`: a conflict on the one-active-run index rolls the savepoint
back and leaves the request queued. -/
def dispatchLockedHead (db : Database) (requestId : String) (head : AgentRunRequest)
    (binding : WorkdirBinding) (plan : DispatchPlan) (now : Time) :
    Transaction ServiceError (Option DispatchResult) :=
  match createRun db (chatRun requestId head binding plan.runId) now with
  | .error .oneActivePerThread => .ok (none, db)
  | .error constraint => .error (.runIntegrity constraint)
  | .ok (_, db₁) =>
    .ok (some { requestId := requestId, runId := plan.runId, workdirBinding := binding },
      linkDispatch db₁ requestId head plan now)

def dispatchReadyHead (db : Database) (uid agentSlug threadId : String)
    (binding : WorkdirBinding) (expectedRequestId : Option String) (plan : DispatchPlan)
    (now : Time) : Transaction ServiceError (Option DispatchResult) :=
  match db.getQueueHead uid agentSlug threadId with
  | none => .ok (none, db)
  | some (requestId, head) =>
    if expectedRequestId.any (· != requestId) then .ok (none, db)
    else
      match getQueueState db uid agentSlug threadId (some head) with
      | .error e => .error e
      | .ok state =>
        if state.status ≠ .ready then .ok (none, db)
        else dispatchLockedHead db requestId head binding plan now

/-- `dispatch_next_request`: returns the run to enqueue. -/
def dispatchNextRequest (db : Database) (uid agentSlug threadId : String) (plan : DispatchPlan)
    (now : Time) : Transaction ServiceError (Option RunId) :=
  match db.conversations.get threadId with
  | none => .ok (none, db)
  | some conversation =>
    if !Database.conversationMatches (some conversation) uid agentSlug then .ok (none, db)
    else
      match resolveConversationWorkdirBinding db threadId conversation uid with
      | .error e => .error e
      | .ok binding =>
        match db.getActiveRunByThreadForUser agentSlug threadId uid with
        | some (activeId, active) =>
          .ok (if active.status = .pending then some activeId else none, db)
        | none =>
          match dispatchReadyHead db uid agentSlug threadId binding none plan now with
          | .error e => .error e
          | .ok (result, db') => .ok (result.map DispatchResult.runId, db')

/-- The threads that `recover_pending_dispatches` reads: threads of pending runs and
threads with queued requests. -/
def recoveryScopes (db : Database) : List (String × String × String) :=
  (((db.runs.rows.filter fun e => e.2.status == .pending).map fun e =>
      (e.2.uid, e.2.agentSlug, e.2.conversationThreadId)) ++
    ((db.requests.rows.filter fun e => e.2.status == .queued).map fun e =>
      (e.2.uid, e.2.agentSlug, e.2.conversationThreadId))).dedup

/-- `recover_pending_dispatches`: every scope is dispatched in a transaction of its own, and
a scope that raises does not stop the others. -/
def recoverPendingDispatches (db : Database) (plan : String × String × String → DispatchPlan)
    (now : Time) : Database :=
  (recoveryScopes db).foldl (fun db scope =>
    db.after (dispatchNextRequest db scope.1 scope.2.1 scope.2.2 (plan scope) now)) db

def continueThreadQueue (db : Database) (uid agentSlug threadId : String) (plan : DispatchPlan)
    (now : Time) : Transaction ServiceError DispatchResult :=
  match db.getThreadConversation uid agentSlug threadId with
  | .error e => .error e
  | .ok conversation =>
    match db.getQueueHead uid agentSlug threadId with
    | none => .error (queueConflict "queue_empty" "队列为空")
    | some (requestId, head) =>
      match getQueueState db uid agentSlug threadId (some head) with
      | .error e => .error e
      | .ok state =>
        if state.status = .running then
          .error (queueConflict "run_active" "线程已有正在执行的运行")
        else if state.status = .interrupted then
          .error (queueConflict "run_interrupted" "线程正在等待用户回答或审批")
        else if state.status ≠ .paused then
          .error (queueConflict "queue_not_paused" "当前队列不需要人工继续")
        else
          match resolveConversationWorkdirBinding db threadId conversation uid with
          | .error e => .error e
          | .ok binding =>
            match dispatchLockedHead db requestId head binding plan now with
            | .error e => .error e
            | .ok (some result, db') => .ok (result, db')
            | .ok (none, _) =>
              if (db.getActiveRunByThreadForUser agentSlug threadId uid).isSome then
                .error (queueConflict "run_active" "线程已有正在执行的运行")
              else .error (queueConflict "queue_not_paused" "当前队列状态已变化")

end Yuanlei
