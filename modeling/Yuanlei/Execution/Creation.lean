import Yuanlei.Queue.Dispatch

/-!
# Resume and subagent runs

`prepare_agent_run_creation_scope`, `persist_agent_run_record` and
`create_resume_run_view` of `agent_run_service.py`, and
`SubagentRunService.start` of `subagent_run_service.py`.  Users, agents,
backends and model configuration are outside the modelled tables; their answers are
arguments.

Main definitions:

- `createResumeRunView`: continue an interrupted run.
- `startSubagent`: start or continue a child thread of a running run.
-/

namespace Yuanlei

open AgentRunRepository

/-! ## Shared creation checks -/

/-- What the creation of a run reads outside the modelled tables. -/
structure CreationAnswers where
  userExists : Bool
  agentVisible : Bool
  agentProjectScope : Except ServiceError Unit
  agentBackend : Except ServiceError Unit
  modelSpec : Except ServiceError String
  messageId : Nat
  runId : RunId

/-- The identity under which a run is requested. -/
structure RunRequestScope where
  uid : String
  agentSlug : String
  conversationThreadId : String
  requestId : String
  runType : RunType
  createdByRunId : Option RunId
  subagentThreadRelationId : Option RelationId := none

def sameRunRequestScope (run : AgentRun) (scope : RunRequestScope) : Bool :=
  run.uid == scope.uid && run.agentSlug == scope.agentSlug &&
    run.conversationThreadId == scope.conversationThreadId && run.runType == scope.runType &&
    run.createdByRunId == scope.createdByRunId &&
    run.subagentThreadRelationId == scope.subagentThreadRelationId

/-- `_run_busy_exception`. -/
def runBusy : ServiceError :=
  .http 409 "run_busy" "该智能体线程正在运行，请等待、查询或取消当前运行后再继续"

structure AgentRunCreationScope where
  conversation : Conversation
  existingRun : Option (RunId × AgentRun)
  parentRun : Option (RunId × AgentRun)

/-- Truth of a serialised JSON value. -/
def jsonTruthy (value : String) : Bool :=
  !(["null", "false", "0", "\"\"", "[]", "\x7b\x7d", ""].contains value)

/-- The checks on the run that a resume continues. -/
def resumeParent (db : Database) (scope : RunRequestScope) :
    Except ServiceError (RunId × AgentRun) :=
  match scope.createdByRunId with
  | none => .error (.http 422 "" "created_by_run_id 不能为空")
  | some parentId =>
    if parentId = "" then .error (.http 422 "" "created_by_run_id 不能为空")
    else
      match db.getRunForUser parentId scope.uid with
      | none => .error (.http 404 "" "被恢复的运行任务不存在")
      | some parent =>
        if parent.conversationThreadId ≠ scope.conversationThreadId ∨
            parent.agentSlug ≠ scope.agentSlug then
          .error (.http 404 "" "被恢复的运行任务不存在")
        else if parent.status ≠ .interrupted then
          .error (.http 409 "" "只有 interrupted run 可以恢复")
        else if (db.getLatestChatOrResumeRun scope.uid scope.agentSlug
            scope.conversationThreadId).any fun e => e.1 != parentId then
          .error (.http 409 "resume_superseded" "中断运行已被后续运行超越")
        else if !((parent.inputPayload.lookup "model_spec").any jsonTruthy) then
          .error (.http 409 "" "被恢复的运行任务缺少模型快照")
        else .ok (parentId, parent)

/-- The end of `prepare_agent_run_creation_scope` for a request id that no run uses. -/
def prepareFreshRun (db : Database) (scope : RunRequestScope) (conversation : Conversation) :
    Except ServiceError AgentRunCreationScope :=
  let busy := (db.getActiveRunByThreadForUser scope.agentSlug scope.conversationThreadId
    scope.uid).isSome
  match scope.runType with
  | .resume =>
    match resumeParent db scope with
    | .error e => .error e
    | .ok parent =>
      if busy then .error runBusy
      else .ok { conversation := conversation, existingRun := none, parentRun := some parent }
  | _ =>
    if busy then .error runBusy
    else .ok { conversation := conversation, existingRun := none, parentRun := none }

def prepareAgentRunCreationScope (db : Database) (scope : RunRequestScope)
    (answers : CreationAnswers) : Except ServiceError AgentRunCreationScope :=
  if scope.conversationThreadId = "" then .error (.http 422 "" "conversation_thread_id 不能为空")
  else
    match (db.conversations.get scope.conversationThreadId).filter fun c =>
        c.uid == scope.uid && c.status != .deleted with
    | none => .error (.http 404 "" "对话线程不存在")
    | some conversation =>
      if conversation.agentId ≠ scope.agentSlug then
        .error (.http 409 "" "已有线程已绑定智能体，不能切换")
      else if !answers.userExists then .error (.http 404 "" "用户不存在")
      else if !answers.agentVisible then .error (.http 404 "" "智能体不存在")
      else
        match answers.agentProjectScope, answers.agentBackend with
        | .error e, _ => .error e
        | .ok (), .error e => .error e
        | .ok (), .ok () =>
          match db.getRunByRequestId scope.requestId with
          | some (runId, run) =>
            if !sameRunRequestScope run scope then .error (.http 409 "" "request_id 冲突")
            else if scope.runType = .resume ∧ scope.createdByRunId.all (· == "") then
              .error (.http 422 "" "created_by_run_id 不能为空")
            else
              .ok
                { conversation := conversation
                  existingRun := some (runId, run)
                  parentRun := none }
          | none => prepareFreshRun db scope conversation

/-- `persist_agent_run_record`: insert the run and bind its input message, which the caller
has inserted before; returns whether the run is new. -/
def persistAgentRunRecord (db : Database) (args : CreateRun) (messageId : Nat) (now : Time) :
    Transaction ServiceError (RunId × AgentRun × Bool) :=
  match createRun db args now with
  | .ok (run, db₁) =>
    .ok ((args.runId, run, true),
      { db₁ with
        messages := db₁.messages.modify messageId fun m =>
          { m with runId := some args.runId } })
  | .error _ =>
    match (db.getRunByRequestId args.requestId).filter fun e =>
        sameRunRequestScope e.2
          { uid := args.uid
            agentSlug := args.agentSlug
            conversationThreadId := args.conversationThreadId
            requestId := args.requestId
            runType := args.runType
            createdByRunId := args.createdByRunId
            subagentThreadRelationId := args.subagentThreadRelationId } with
    | some (runId, run) =>
      .ok ((runId, run, false), { db with messages := db.messages.erase messageId })
    | none =>
      if (db.getActiveRunByThreadForUser args.agentSlug args.conversationThreadId
          args.uid).isSome then .error runBusy
      else .error (.http 409 "" "request_id 冲突")

/-! ## Resume -/

/-- The answer of the user as far as `_validate_resume_input` reads it: whether there is one,
and the types of its decisions when it has the key `decisions` (no types when the value is
not a list). -/
structure ResumeInput where
  present : Bool
  decisions : Option (List String) := none

/-- The null check and `_validate_resume_input`. -/
def validateResumeInput (resume : ResumeInput) : Except ServiceError Unit :=
  if !resume.present then .error (.http 422 "" "resume 不能为空")
  else
    match resume.decisions with
    | none => .ok ()
    | some types =>
      if types.isEmpty then .error (.http 422 "" "decisions 必须是非空数组")
      else if types.any fun t => t != "approve" && t != "reject" then
        .error (.http 422 "" "decision.type 只支持 approve 或 reject")
      else .ok ()

/-- Arguments of `create_resume_run_view`.  The request id is the caller's own or a hash of
the resumed run and the answer. -/
structure ResumeArgs where
  agentSlug : String
  threadId : String
  uid : String
  requestId : String
  createdByRunId : Option RunId
  resume : ResumeInput
  content : String
  messageType : String := "text"
  source : Option String := none
  channel : Option String := none
  externalId : Option String := none
  originMetadata : Option JsonObject := none

/-- `DEFAULT_TOOL_APPROVAL_MODE`, serialised. -/
def defaultToolApprovalMode : String := "\"default\""

/-- The payload that a resume inherits from the interrupted run. -/
def inheritedPayload (parent : AgentRun) : JsonObject :=
  [("model_spec", (parent.inputPayload.lookup "model_spec").getD "null"),
    ("tool_approval_mode",
      (parent.inputPayload.lookup "tool_approval_mode").getD defaultToolApprovalMode)]

/-- Python's `value or default` on text. -/
def orDefault (value default : String) : String :=
  if value = "" then default else value

/-- The arguments with which a resume creates its run. -/
def resumeRun (args : ResumeArgs) (conversation : Conversation) (parent : AgentRun)
    (answers : CreationAnswers) : CreateRun where
  runId := answers.runId
  conversationThreadId := args.threadId
  runtimeScopeId := some args.threadId
  agentSlug := args.agentSlug
  uid := args.uid
  requestId := args.requestId
  inputPayload := inheritedPayload parent
  source := args.source.getD (orDefault parent.source "chat")
  channel := args.channel.getD (orDefault parent.channel "web")
  externalId := args.externalId.orElse fun _ => parent.externalId
  originMetadata := some (args.originMetadata.getD parent.originMetadata)
  conversationId := some conversation.id
  createdByRunId := args.createdByRunId
  runType := .resume
  inputMessageId := some answers.messageId

/-- The message that carries the input of a resume or subagent run. -/
def creationMessage (conversation : Conversation) (requestId content messageType : String) :
    Message where
  conversationId := conversation.id
  role := .user
  content := content
  messageType := messageType
  extraMetadata := none
  runId := none
  requestId := some requestId
  deliveryStatus := .complete
  finishedAt := none
  executionStatus := none

/-- The identity under which a resume requests its run. -/
def ResumeArgs.scope (args : ResumeArgs) : RunRequestScope where
  uid := args.uid
  agentSlug := args.agentSlug
  conversationThreadId := args.threadId
  requestId := args.requestId
  runType := .resume
  createdByRunId := args.createdByRunId

/-- The writes of a resume after its checks. -/
def persistResume (db : Database) (args : ResumeArgs) (conversation : Conversation)
    (parentId : RunId) (parent : AgentRun) (answers : CreationAnswers) (now : Time) :
    Transaction ServiceError RunId :=
  match db.messages.insert answers.messageId
      (creationMessage conversation args.requestId args.content args.messageType) with
  | none => .error (.uniqueViolation "messages")
  | some messages =>
    match persistAgentRunRecord { db with messages := messages }
        (resumeRun args conversation parent answers) answers.messageId now with
    | .error e => .error e
    | .ok ((runId, _, created), db₂) =>
      if created then .ok (runId, inheritRunScope db₂ parentId parent runId args.threadId)
      else .ok (runId, db₂)

def createResumeRunView (db : Database) (args : ResumeArgs) (answers : CreationAnswers)
    (now : Time) : Transaction ServiceError RunId :=
  match validateResumeInput args.resume with
  | .error e => .error e
  | .ok () =>
    match prepareAgentRunCreationScope db args.scope answers with
    | .error e => .error e
    | .ok scope =>
      match scope.existingRun, scope.parentRun with
      | some (runId, _), _ => .ok (runId, db)
      | none, none => .error (.runtimeError "parent_run")
      | none, some (parentId, parent) =>
        persistResume db args scope.conversation parentId parent answers now

/-! ## Subagents -/

/-- Arguments of `SubagentRunService.start`; the two hashed texts are what
`subagent_child_thread_id` and `hash_id` return. -/
structure SubagentArgs where
  uid : String
  createdByRunId : RunId
  subagentSlug : String
  content : String
  messageType : String := "text"
  requestedThreadId : Option String := none
  childThreadHash : String
  requestHash : String
  runtimePayload : String
  conversationId : Nat
  relationId : RelationId

def ensureChildConversation (db : Database) (args : SubagentArgs) (childThreadId : String)
    (parentProjectId : String) : Transaction ServiceError Conversation :=
  match db.conversations.get childThreadId with
  | some conversation =>
    if conversation.uid ≠ args.uid ∨ conversation.status = .deleted then
      .error (.valueError "子智能体线程不存在")
    else if conversation.status ≠ .subagent then
      .error (.valueError ("子智能体线程 " ++ childThreadId ++ " 已被普通对话占用"))
    else if conversation.agentId ≠ args.subagentSlug then
      .error (.valueError
        ("子智能体线程 " ++ childThreadId ++ " 属于智能体 " ++ conversation.agentId))
    else if conversation.projectId ≠ parentProjectId then
      .error (.valueError "子智能体线程与父对话的 Workdir 不一致")
    else .ok (conversation, db)
  | none =>
    let conversation : Conversation :=
      { id := args.conversationId
        uid := args.uid
        agentId := args.subagentSlug
        status := .subagent
        projectId := parentProjectId }
    match db.conversations.insert childThreadId conversation with
    | none => .error (.uniqueViolation "conversations")
    | some conversations => .ok (conversation, { db with conversations := conversations })

/-- `get_by_child_thread_for_user`. -/
def getRelationByChildThread (db : Database) (childThreadId uid : String) :
    Option (RelationId × SubagentThread) :=
  db.subagentThreads.rows.find? fun e => e.2.childThreadId == childThreadId && e.2.uid == uid

/-- The parent checks of `_ensure_thread_relation`; returns the project of the parent. -/
def checkParent (db : Database) (uid : String) (creator : AgentRun) :
    Except ServiceError (Nat × String) :=
  match creator.conversationId with
  | none => .error (.valueError "父运行任务缺少 conversation_id，无法创建子智能体线程关系")
  | some conversationId =>
    match (db.getConversationById conversationId).filter fun e => e.2.uid == uid with
    | none => .error (.valueError "父运行任务的 Conversation 不存在")
    | some (_, parent) =>
      if (db.lockActiveProjectForUser parent.projectId uid).isNone then
        .error (.valueError "父运行任务的 Project 不存在")
      else if !(db.conversations.get creator.conversationThreadId).any fun c =>
          c.id == conversationId && c.uid == uid && c.status != .deleted &&
            c.projectId == parent.projectId then
        .error (.valueError "父运行任务的 Conversation 不存在")
      else .ok (conversationId, parent.projectId)

/-- `_ensure_thread_relation` with `_validate_thread_relation`. -/
def ensureThreadRelation (db : Database) (args : SubagentArgs) (creator : AgentRun)
    (childThreadId : String) (continuing : Bool) :
    Transaction ServiceError (RelationId × SubagentThread) :=
  match checkParent db args.uid creator with
  | .error e => .error e
  | .ok (parentConversationId, parentProjectId) =>
    match getRelationByChildThread db childThreadId args.uid with
    | some (relationId, relation) =>
      if relation.parentConversationId ≠ parentConversationId then
        .error (.valueError ("子智能体线程 " ++ childThreadId ++ "：线程不属于当前对话"))
      else if relation.subagentSlug ≠ args.subagentSlug then
        .error (.valueError ("子智能体线程 " ++ childThreadId ++ " 属于子智能体 " ++
          orDefault relation.subagentSlug "未知"))
      else
        match (db.getConversationById relation.childConversationId).filter fun e =>
            e.2.uid == args.uid && e.2.status != .deleted with
        | none => .error (.valueError "子智能体线程不存在")
        | some (_, child) =>
          if child.projectId ≠ parentProjectId then
            .error (.valueError "子智能体线程与父对话的 Workdir 不一致")
          else .ok ((relationId, relation), db)
    | none =>
      if continuing then
        .error (.valueError
          ("无法继续子智能体线程 " ++ childThreadId ++ "：当前对话中没有找到对应的运行记录"))
      else
        match ensureChildConversation db args childThreadId parentProjectId with
        | .error e => .error e
        | .ok (child, db₁) =>
          let relation : SubagentThread :=
            { uid := args.uid
              parentConversationId := parentConversationId
              childConversationId := child.id
              childThreadId := childThreadId
              subagentSlug := args.subagentSlug
              createdByRunId := args.createdByRunId }
          -- Child thread and child conversation are unique columns of the relation table.
          if db₁.subagentThreads.rows.any fun e =>
              e.2.childThreadId == childThreadId ||
                e.2.childConversationId == child.id then
            .error (.uniqueViolation "subagent_threads")
          else
            match db₁.subagentThreads.insert args.relationId relation with
            | none => .error (.uniqueViolation "subagent_threads")
            | some relations =>
              .ok ((args.relationId, relation), { db₁ with subagentThreads := relations })

/-- The payload of a subagent run. -/
def subagentPayload (args : SubagentArgs) (creator : AgentRun) (modelSpec : String) :
    JsonObject :=
  [("model_spec", modelSpec),
    ("tool_approval_mode",
      (creator.inputPayload.lookup "tool_approval_mode").getD defaultToolApprovalMode),
    ("runtime", args.runtimePayload)]

/-- The arguments with which `_create_run_record` creates the child run. -/
def subagentRun (args : SubagentArgs) (creator : AgentRun) (relationId : RelationId)
    (relation : SubagentThread) (conversation : Conversation) (modelSpec : String)
    (answers : CreationAnswers) : CreateRun where
  runId := answers.runId
  conversationThreadId := relation.childThreadId
  runtimeScopeId := some relation.childThreadId
  agentSlug := relation.subagentSlug
  uid := args.uid
  requestId := args.requestHash
  inputPayload := subagentPayload args creator modelSpec
  source := "subagent"
  channel := "internal"
  conversationId := some conversation.id
  createdByRunId := some args.createdByRunId
  subagentThreadRelationId := some relationId
  runType := .subagent
  inputMessageId := some answers.messageId

/-- The identity under which a child run is requested. -/
def SubagentArgs.scope (args : SubagentArgs) (relationId : RelationId)
    (relation : SubagentThread) : RunRequestScope where
  uid := args.uid
  agentSlug := relation.subagentSlug
  conversationThreadId := relation.childThreadId
  requestId := args.requestHash
  runType := .subagent
  createdByRunId := some args.createdByRunId
  subagentThreadRelationId := some relationId

/-- The writes of `_create_run_record` after its checks. -/
def persistSubagent (db : Database) (args : SubagentArgs) (creator : AgentRun)
    (relationId : RelationId) (relation : SubagentThread) (conversation : Conversation)
    (modelSpec : String) (answers : CreationAnswers) (now : Time) :
    Transaction ServiceError (RunId × AgentRun × Bool) :=
  match db.messages.insert answers.messageId
      (creationMessage conversation args.requestHash args.content args.messageType) with
  | none => .error (.uniqueViolation "messages")
  | some messages =>
    match persistAgentRunRecord { db with messages := messages }
        (subagentRun args creator relationId relation conversation modelSpec answers)
        answers.messageId now with
    | .error e => .error e
    | .ok ((runId, run, created), db₂) =>
      if created then
        .ok ((runId, run, true),
          inheritRunScope db₂ args.createdByRunId creator runId relation.childThreadId)
      else .ok ((runId, run, false), db₂)

/-- `_create_run_record`. -/
def createSubagentRunRecord (db : Database) (args : SubagentArgs) (creator : AgentRun)
    (relationId : RelationId) (relation : SubagentThread) (answers : CreationAnswers)
    (now : Time) : Transaction ServiceError (RunId × AgentRun × Bool) :=
  if args.content = "" then .error (.http 422 "" "input_message 不能为空")
  else
    match prepareAgentRunCreationScope db (args.scope relationId relation) answers with
    | .error e => .error e
    | .ok scope =>
      if relation.childConversationId ≠ scope.conversation.id then
        .error (.http 409 "" "subagent thread relation 与本次运行不匹配")
      else
        match scope.existingRun with
        | some (runId, run) => .ok ((runId, run, false), db)
        | none =>
          if creator.conversationId ≠ some relation.parentConversationId then
            .error (.http 409 "" "subagent thread relation 与本次运行不匹配")
          else
            match answers.modelSpec with
            | .error e => .error e
            | .ok modelSpec =>
              persistSubagent db args creator relationId relation scope.conversation
                modelSpec answers now

structure SubagentStartResult where
  runId : RunId
  run : AgentRun
  created : Bool
  continuing : Bool
  relationId : RelationId

/-- `SubagentRunService.start`. -/
def startSubagent (db : Database) (args : SubagentArgs) (answers : CreationAnswers)
    (now : Time) : Transaction ServiceError SubagentStartResult :=
  match db.getRunForUser args.createdByRunId args.uid with
  | none => .error (.valueError "父运行任务不存在")
  | some creator =>
    if creator.status ≠ .running then
      .error (.valueError "父运行已结束，不能再创建子智能体")
    else if creator.runType = .subagent then
      .error (.valueError "子智能体不能创建子智能体")
    else
      let requested := PyText.strip (args.requestedThreadId.getD "")
      let continuing := requested != ""
      let childThreadId := if continuing then requested else args.childThreadHash
      match ensureThreadRelation db args creator childThreadId continuing with
      | .error e => .error e
      | .ok ((relationId, relation), db₁) =>
        match createSubagentRunRecord db₁ args creator relationId relation answers now with
        | .error e => .error e
        | .ok ((runId, run, created), db₂) =>
          .ok
            ({ runId := runId
               run := run
               created := created
               continuing := continuing
               relationId := relationId }, db₂)

end Yuanlei
