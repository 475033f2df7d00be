import Yuanlei.Queue.Dispatch

/-!
# Submitting, cancelling and steering requests

`submit_agent_request` and `_persist_request` of
`agent_request_service.py`, and the two operations on queued requests of
`agent_request_queue_service.py`.  What a transaction reads outside the modelled
tables (agents, backends, model configuration, attachments and the keys drawn by the
database) comes with its answers as an argument.

Cancelling and steering load the request before they wait for the lock of its
conversation.  The row object stays in the session, and the later
`SELECT ... FOR UPDATE` does not refresh it, so these operations are two steps: a
load, and a commit that decides on the loaded columns and writes the current row.

Main definitions:

- `persistRequest`: the idempotent insertion of a request with its dispatch.
- `cancelQueuedRequest` and `steerQueuedRequest`: the locked halves of
  the two operations on a loaded request.
-/

namespace Yuanlei

open AgentRunRepository

/-! ## Input -/

structure RunOrigin where
  source : String
  channel : String
  externalId : Option String := none
  metadata : JsonObject := []

/-- `AgentRequestInput`; model and approval mode only enter the resolved configuration. -/
structure AgentRequestInput where
  agentSlug : String
  threadId : String
  requestId : String
  content : String
  messageType : String := "text"
  origin : RunOrigin
  queuePolicy : String := "enqueue"
  createConversation : Bool := false
  conversationProjectId : Option String := none

/-- What a submission reads outside the modelled tables. -/
structure SubmitAnswers where
  agentVisible : Bool
  agentProjectScope : Except ServiceError Unit
  agentBackend : Except ServiceError Unit
  runConfig : Except ServiceError JsonObject
  attachments : Except ServiceError Unit
  conversationId : Nat
  implicitProject : String × Project
  messageId : Nat
  requestSeq : Nat
  plan : DispatchPlan

def validateQueuePolicy (queuePolicy : String) : Except ServiceError QueuePolicy :=
  if queuePolicy = "guided" ∨ queuePolicy = "bridge" then
    .error (.http 422 "" ("queue_policy '" ++ queuePolicy ++ "' 暂未实现"))
  else if queuePolicy = "enqueue" then .ok .enqueue
  else if queuePolicy = "reject" then .ok .reject
  else if queuePolicy = "steer" then .ok .steer
  else .error (.http 422 "" ("不支持的 queue_policy: " ++ queuePolicy))

def validateRequestScope (request : AgentRunRequest) (input : AgentRequestInput) (uid : String) :
    Except ServiceError Unit :=
  if request.uid = uid ∧ request.agentSlug = input.agentSlug ∧
      request.conversationThreadId = input.threadId ∧ request.source = input.origin.source ∧
      request.channel = input.origin.channel ∧ request.externalId = input.origin.externalId then
    .ok ()
  else .error (queueConflict "request_id_conflict" "request_id 已用于其他请求作用域")

/-! ## Persisting a request -/

/-- The row that `AgentRunRequestRepository.create` inserts. -/
def requestRow (input : AgentRequestInput) (uid : String) (policy : QueuePolicy)
    (status : RequestStatus) (payload : JsonObject) (messageId seq : Nat) (now : Time) :
    AgentRunRequest where
  seq := seq
  uid := uid
  agentSlug := input.agentSlug
  conversationThreadId := input.threadId
  source := input.origin.source
  channel := input.origin.channel
  externalId := input.origin.externalId
  originMetadata := input.origin.metadata
  queuePolicy := policy
  status := status
  inputMessageId := messageId
  dispatchedRunId := none
  inputPayload := payload
  createdAt := now
  dispatchedAt := none
  updatedAt := now

/-- The row that `create_agent_run_input_message` inserts. -/
def inputMessageRow (conversationId : Nat) (requestId content messageType : String)
    (deliveryStatus : DeliveryStatus) : Message where
  conversationId := conversationId
  role := .user
  content := content
  messageType := messageType
  extraMetadata := none
  runId := none
  requestId := some requestId
  deliveryStatus := deliveryStatus
  finishedAt := none
  executionStatus := none

/-- The savepoint of `_persist_request`: the input message with its request. -/
def insertRequest (db : Database) (requestId : String) (messageId : Nat) (message : Message)
    (request : AgentRunRequest) : Option Database :=
  match db.messages.insert messageId message, db.requests.insert requestId request with
  | some messages, some requests => some { db with messages := messages, requests := requests }
  | _, _ => none

/-- The fallback of the reject policy: a request that was not dispatched at once. -/
def rejectRequest (db : Database) (requestId : String) (messageId : Nat) (now : Time) : Database :=
  { db with
    requests := db.requests.modify requestId fun request =>
      { request with status := .rejected, inputPayload := [], updatedAt := now }
    messages := db.messages.modify messageId fun m => { m with deliveryStatus := .rejected } }

/-- The checks of `_persist_request` that read the queue; they return whether the request
has to be rejected at once. -/
def admitRequest (db : Database) (input : AgentRequestInput) (uid : String)
    (policy : QueuePolicy) : Except ServiceError Bool :=
  let active := db.getActiveRunByThreadForUser input.agentSlug input.threadId uid
  if (db.getLatestChatOrResumeRun uid input.agentSlug input.threadId).any fun e =>
      e.2.status == .interrupted then
    .error (queueConflict "run_interrupted" "线程正在等待用户回答或审批")
  else if policy = .steer ∧ active.any fun e => !db.isSteerableMessageRun e.2 then
    .error (queueConflict "run_not_steerable" "当前运行不支持引导")
  else
    let reject := policy == .reject &&
      (active.isSome || !(db.listQueued uid input.agentSlug input.threadId).isEmpty)
    if policy = .steer then
      match db.getPendingSteer uid input.agentSlug input.threadId with
      | .error e => .error e
      | .ok (some _) => .error (queueConflict "steer_already_pending" "线程已有等待执行的引导请求")
      | .ok none => .ok reject
    else .ok reject

/-- The end of `_persist_request`: the new request is in the database, and the head of the
queue is dispatched if it can be. -/
def dispatchPersisted (db : Database) (input : AgentRequestInput) (uid : String)
    (policy : QueuePolicy) (binding : WorkdirBinding) (answers : SubmitAnswers) (now : Time) :
    Transaction ServiceError (Option DispatchResult) :=
  match dispatchReadyHead db uid input.agentSlug input.threadId binding
      (if policy = .reject then some input.requestId else none) answers.plan now with
  | .error e => .error e
  | .ok (result, db') =>
    if policy = .reject ∧ !(result.any fun r => r.requestId == input.requestId) then
      .ok (result, rejectRequest db' input.requestId answers.messageId now)
    else .ok (result, db')

def persistRequest (db : Database) (input : AgentRequestInput) (uid : String)
    (binding : WorkdirBinding) (answers : SubmitAnswers) (now : Time) :
    Transaction ServiceError (Option DispatchResult) :=
  match validateQueuePolicy input.queuePolicy with
  | .error e => .error e
  | .ok policy =>
    if policy = .steer ∧ input.origin.source ≠ "chat" ∧ input.origin.source ≠ "channel" then
      .error (.http 422 "" "queue_policy 'steer' 仅支持主会话 Chat/Channel")
    else if binding.uid ≠ uid ∨ binding.threadId ≠ input.threadId then
      .error (.runtimeError "传入的 Workdir 绑定与请求作用域不一致")
    else
      match db.requests.get input.requestId with
      | some existing =>
        match validateRequestScope existing input uid with
        | .error e => .error e
        | .ok () => .ok (none, db)
      | none =>
        match db.getThreadConversation uid input.agentSlug input.threadId with
        | .error e => .error e
        | .ok conversation =>
          if binding.conversationId ≠ conversation.id ∨
              binding.projectId ≠ conversation.projectId then
            .error (.runtimeError "传入的 Workdir 绑定与 Conversation 不一致")
          else
            match admitRequest db input uid policy with
            | .error e => .error e
            | .ok true =>
              match insertRequest db input.requestId answers.messageId
                  (inputMessageRow conversation.id input.requestId input.content
                    input.messageType .rejected)
                  (requestRow input uid policy .rejected [] answers.messageId
                    answers.requestSeq now) with
              | none => .error (.uniqueViolation "agent_run_requests")
              | some db₁ => .ok (none, db₁)
            | .ok false =>
              match answers.runConfig, answers.attachments with
              | .error e, _ => .error e
              | .ok _, .error e => .error e
              | .ok payload, .ok () =>
                match insertRequest db input.requestId answers.messageId
                    (inputMessageRow conversation.id input.requestId input.content
                      input.messageType .queued)
                    (requestRow input uid policy .queued payload answers.messageId
                      answers.requestSeq now) with
                | none => .error (.uniqueViolation "agent_run_requests")
                | some db₁ => dispatchPersisted db₁ input uid policy binding answers now

/-! ## The whole submission -/

/-- Normalisation of the origin: blank external ids are dropped and reserved keys removed. -/
def RunOrigin.normalized (origin : RunOrigin) : RunOrigin where
  source := origin.source
  channel := origin.channel
  externalId := (origin.externalId.map PyText.strip).filter (· != "")
  metadata := origin.metadata.filter fun e =>
    !(e.1 == "source" || e.1 == "channel" || e.1 == "external_id")

/-- The checks on the origin of a request. -/
def checkOrigin (origin : RunOrigin) : Except ServiceError Unit :=
  if PyText.strip origin.source = "" ∨ PyText.strip origin.channel = "" then
    .error (.http 422 "" "Run origin source/channel 不能为空")
  else if 32 < origin.source.length then
    .error (.http 422 "" "Run origin source 不能超过 32 个字符")
  else if 32 < origin.channel.length then
    .error (.http 422 "" "Run origin channel 不能超过 32 个字符")
  else .ok ()

/-- What a submission answers: the view of a run, or the view of a request. -/
inductive SubmitResponse where
  | existingRun (runId : RunId)
  | request (requestId : String)
deriving DecidableEq

/-- The answer to a request id that a run already uses without a request. -/
def replayRun (runId : RunId) (run : AgentRun) (input : AgentRequestInput) (uid : String) :
    Except ServiceError SubmitResponse :=
  if run.uid ≠ uid ∨ run.agentSlug ≠ input.agentSlug ∨ run.runType ≠ .chat ∨
      (input.threadId ≠ "" ∧ run.conversationThreadId ≠ input.threadId) then
    .error (.http 409 "" "request_id 冲突")
  else .ok (.existingRun runId)

/-- The answer to a request id that a request already uses. -/
def replayRequest (db : Database) (existing : AgentRunRequest) (input : AgentRequestInput)
    (uid : String) (answers : SubmitAnswers) : Except ServiceError SubmitResponse :=
  match validateRequestScope existing input uid with
  | .error e => .error e
  | .ok () =>
    match db.getThreadConversation uid input.agentSlug existing.conversationThreadId with
    | .error e => .error e
    | .ok conversation =>
      if !(db.getProjectForUser conversation.projectId uid).any fun project =>
          project.status == .active then
        .error (.http 404 "" "Project 不存在或不可访问")
      else
        match answers.agentProjectScope with
        | .error e => .error e
        | .ok () => .ok (.request input.requestId)

/-- The conversation of a submission, created when the caller asks for it. -/
def ensureConversation (db : Database) (input : AgentRequestInput) (uid : String)
    (answers : SubmitAnswers) : Transaction ServiceError Conversation :=
  match db.conversations.get input.threadId with
  | some conversation => .ok (conversation, db)
  | none =>
    if !input.createConversation then .error (.http 404 "" "对话线程不存在")
    else
      let add (db : Database) (projectId : String) : Transaction ServiceError Conversation :=
        let conversation : Conversation :=
          { id := answers.conversationId
            uid := uid
            agentId := input.agentSlug
            status := .active
            projectId := projectId }
        match db.conversations.insert input.threadId conversation with
        | none => .error (.uniqueViolation "conversations")
        | some conversations => .ok (conversation, { db with conversations := conversations })
      match input.conversationProjectId.filter (· != "") with
      | some projectId =>
        if (db.lockActiveProjectForUser projectId uid).isSome then add db projectId
        else .error (.http 404 "" "Project 不存在或不可访问")
      | none =>
        match db.projects.insert answers.implicitProject.1 answers.implicitProject.2 with
        | none => .error (.uniqueViolation "projects")
        | some projects => add { db with projects := projects } answers.implicitProject.1

/-- A submission that waits for the lock of its conversation. -/
structure PreparedSubmission where
  input : AgentRequestInput
  uid : String
  binding : WorkdirBinding
  answers : SubmitAnswers

/-- `submit_agent_request` up to the call of `_persist_request`: the answer to a request
id that is already in use, or what the locked half starts with. -/
def prepareSubmission (db : Database) (input : AgentRequestInput) (uid : String)
    (answers : SubmitAnswers) :
    Transaction ServiceError (SubmitResponse ⊕ PreparedSubmission) :=
  match checkOrigin input.origin with
  | .error e => .error e
  | .ok () =>
    if !answers.agentVisible then .error (.http 404 "" "智能体不存在")
    else
      let input := { input with origin := input.origin.normalized }
      match db.requests.get input.requestId with
      | some existing =>
        match replayRequest db existing input uid answers with
        | .error e => .error e
        | .ok response => .ok (.inl response, db)
      | none =>
        match db.getRunByRequestId input.requestId with
        | some (runId, run) =>
          match replayRun runId run input uid with
          | .error e => .error e
          | .ok response => .ok (.inl response, db)
        | none =>
          match answers.agentBackend with
          | .error e => .error e
          | .ok () =>
            match ensureConversation db input uid answers with
            | .error e => .error e
            | .ok (conversation, db₁) =>
              match answers.agentProjectScope with
              | .error e => .error e
              | .ok () =>
                match resolveConversationWorkdirBinding db₁ input.threadId
                    conversation uid with
                | .error e => .error e
                | .ok binding =>
                  .ok (.inr
                    { input := input
                      uid := uid
                      binding := binding
                      answers := answers }, db₁)

/-- The locked half of `submit_agent_request`. -/
def persistSubmission (db : Database) (prepared : PreparedSubmission) (now : Time) :
    Transaction ServiceError SubmitResponse :=
  match persistRequest db prepared.input prepared.uid prepared.binding prepared.answers now with
  | .error e => .error e
  | .ok (_, db') => .ok (.request prepared.input.requestId, db')

def submitAgentRequest (db : Database) (input : AgentRequestInput) (uid : String)
    (answers : SubmitAnswers) (now : Time) : Transaction ServiceError SubmitResponse :=
  match prepareSubmission db input uid answers with
  | .error e => .error e
  | .ok (.inl response, db') => .ok (response, db')
  | .ok (.inr prepared, db₁) => persistSubmission db₁ prepared now

/-! ## Operations on a loaded request -/

/-- A request row that a session has loaded, with the columns as they were then. -/
structure LoadedRequest where
  requestId : String
  row : AgentRunRequest

/-- The load of `cancel_queued_request`, whose 404 carries no code, and of
`steer_queued_request`, whose 404 carries `request_not_found`. -/
def loadRequest (db : Database) (requestId uid notFoundCode : String) :
    Except ServiceError LoadedRequest :=
  match (db.requests.get requestId).filter fun request => request.uid == uid with
  | none => .error (.http 404 notFoundCode "请求不存在")
  | some row => .ok { requestId := requestId, row := row }

/-- The columns that cancelling sets. -/
def AgentRunRequest.cancelled (request : AgentRunRequest) (now : Time) : AgentRunRequest :=
  { request with status := .cancelled, updatedAt := now }

/-- The columns that steering sets. -/
def AgentRunRequest.steered (request : AgentRunRequest) (now : Time) : AgentRunRequest :=
  { request with queuePolicy := .steer, updatedAt := now }

/-- The locked half of `cancel_queued_request`.  The statuses tested are those of the loaded
object; the assignment is flushed to the current row. -/
def cancelQueuedRequest (db : Database) (loaded : LoadedRequest) (now : Time) :
    Transaction ServiceError RequestStatus :=
  let request := loaded.row
  match db.getThreadConversation request.uid request.agentSlug request.conversationThreadId with
  | .error e => .error e
  | .ok _ =>
    if (db.requests.get loaded.requestId).isNone then .error (.http 404 "" "请求不存在")
    else if request.status = .dispatched then
      .error (.http 409 "request_already_dispatched"
        "请求已派发，请通过 run 取消接口取消正在进行的运行")
    else if request.status.isTerminal then .ok (request.status, db)
    else if request.queuePolicy = .steer ∧
        (db.getActiveRunByThreadForUser request.agentSlug request.conversationThreadId
          request.uid).isSome then
      .error (queueConflict "steer_in_progress" "引导已等待当前运行结束，暂时不能取消")
    else
      .ok (.cancelled,
        { db with
          requests := db.requests.modify loaded.requestId fun r => r.cancelled now })

/-- The locked half of `steer_queued_request`. -/
def steerQueuedRequest (db : Database) (loaded : LoadedRequest) (now : Time) :
    Transaction ServiceError Unit :=
  let request := loaded.row
  match db.getThreadConversation request.uid request.agentSlug request.conversationThreadId with
  | .error e => .error e
  | .ok _ =>
    if (db.requests.get loaded.requestId).isNone then
      .error (.http 404 "request_not_found" "请求不存在")
    else if request.queuePolicy = .steer ∧ request.status = .queued then .ok ((), db)
    else if request.status ≠ .queued ∨ request.queuePolicy ≠ .enqueue ∨
        request.source ≠ "chat" then
      .error (queueConflict "request_not_queued" "只有普通 Chat 排队请求可以升级为引导")
    else
      match db.getPendingSteer request.uid request.agentSlug request.conversationThreadId with
      | .error e => .error e
      | .ok pending =>
        if pending.any fun e => e.1 != loaded.requestId then
          .error (queueConflict "steer_already_pending" "线程已有等待执行的引导请求")
        else if !(db.getActiveRunByThreadForUser request.agentSlug
            request.conversationThreadId request.uid).any fun e =>
            db.isSteerableMessageRun e.2 then
          .error (queueConflict "run_not_steerable" "当前运行不支持引导")
        else
          .ok ((),
            { db with
              requests := db.requests.modify loaded.requestId fun r => r.steered now })

end Yuanlei
