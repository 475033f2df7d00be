import Yuanlei.Execution.Creation

/-!
# The worker's checks on a run

`_validate_run_workdir_binding` and the two transactions of
`_release_runtime_if_idle` of `run_worker.py`.  Opening a directory of the
user's workspace is the parameter `openExisting`.

Main definitions:

- `validateRunWorkdirBinding`: what the worker checks before it executes.
- `prepareRuntimeCleanup` and `confirmRuntimeCleanup`: the transactions
  around the release of a sandbox.
-/

namespace Yuanlei

/-! ## Sandbox scopes -/

inductive SandboxScope where
  | thread (uid threadId : String)
  | agentProject (uid agentSlug projectId : String)
deriving DecidableEq

def SandboxScope.validate (scope : SandboxScope) : Except ServiceError SandboxScope :=
  match scope with
  | .thread uid threadId =>
    if uid = "" then .error (.valueError "sandbox scope uid is required")
    else if threadId = "" then .error (.valueError "sandbox thread scope requires thread_id")
    else .ok scope
  | .agentProject uid agentSlug projectId =>
    if uid = "" then .error (.valueError "sandbox scope uid is required")
    else if agentSlug = "" ∨ projectId = "" then
      .error (.valueError "sandbox agent_project scope requires agent_slug and project_id")
    else .ok scope

/-- `SandboxScope.from_runtime_scope`: the prefix `agent-project:` marks a dedicated
scope, whose key has four parts. -/
def SandboxScope.fromRuntimeScope (uid runtimeScopeId : String) :
    Except ServiceError SandboxScope :=
  let runtimeId := PyText.strip runtimeScopeId
  match runtimeId.splitOn ":" with
  | "agent-project" :: first :: rest =>
    match first :: rest with
    | keyUid :: agentSlug :: projectId :: more =>
      SandboxScope.validate (.agentProject (PyText.strip keyUid) (PyText.strip agentSlug)
        (PyText.strip (":".intercalate (projectId :: more))))
    | _ => .error (.valueError ("invalid agent-project scope key: '" ++ runtimeId ++ "'"))
  | _ => SandboxScope.validate (.thread (PyText.strip uid) runtimeId)

/-! ## Workdir authorisation -/

structure AuthorizedWorkdir where
  conversationId : Nat
  threadId : String
  uid : String
  workdirPath : String
  projectId : String
  directoryMode : DirectoryMode
deriving DecidableEq

section
variable (openExisting : String → String → Except ServiceError Unit)

def resolveAuthorizedWorkdir (db : Database) (threadId uid : String) :
    Except ServiceError AuthorizedWorkdir :=
  match (db.conversations.get threadId).filter fun c => c.uid == uid && c.status != .deleted with
  | none => .error (.http 404 "" "对话线程不存在")
  | some conversation =>
    match resolveConversationWorkdirBinding db threadId conversation uid with
    | .error e => .error e
    | .ok binding =>
      match openExisting uid binding.workdirPath with
      | .error e => .error e
      | .ok () =>
        .ok
          { conversationId := conversation.id
            threadId := threadId
            uid := uid
            workdirPath := binding.workdirPath
            projectId := binding.projectId
            directoryMode := binding.directoryMode }

/-! ## The execution boundary -/

/-- What the worker raises when a run must not be executed. -/
inductive WorkerError where
  | nonRetryable (message : String)
  | typeError
  | service (error : ServiceError)
deriving DecidableEq

/-- The rejection of a child run outside the execution tree of its creator. -/
def WorkerError.foreignScope : WorkerError :=
  .nonRetryable "SubAgent Run 的 runtime scope 不属于创建者执行树"

def getSubagentRunWithCreator (db : Database) (uid : String) (createdByRunId runId : RunId) :
    Option (AgentRun × AgentRun) :=
  match db.getRunForUser createdByRunId uid, db.getRunForUser runId uid with
  | some creator, some run =>
    if run.runType ≠ .subagent ∨ run.createdByRunId ≠ some createdByRunId then none
    else
      match run.subagentThreadRelationId.bind fun relationId =>
          (db.subagentThreads.get relationId).filter fun relation => relation.uid == uid with
      | none => none
      | some relation =>
        if creator.conversationId ≠ some relation.parentConversationId ∨
            run.conversationId ≠ some relation.childConversationId ∨
            relation.childThreadId ≠ run.conversationThreadId then none
        else some (creator, run)
  | _, _ => none

/-- The branch of `_validate_run_workdir_binding` for chat and resume runs. -/
def validateTopLevelScope (run : AgentRun) (kind : String) (binding : AuthorizedWorkdir)
    (persistedScope : String) : Except WorkerError Unit :=
  match SandboxScope.fromRuntimeScope run.uid persistedScope with
  | .error e => .error (.service e)
  | .ok (.thread _ _) =>
    if persistedScope ≠ run.conversationThreadId then
      .error (.nonRetryable (kind ++ " AgentRun 的 runtime scope 非法"))
    else .ok ()
  | .ok (.agentProject _ agentSlug projectId) =>
    if agentSlug ≠ run.agentSlug ∨ projectId ≠ binding.projectId then
      .error (.nonRetryable (kind ++ " AgentRun 的专属沙盒 scope 与 Agent/Project 不一致"))
    else .ok ()

/-- The branch of `_validate_run_workdir_binding` for subagent runs. -/
def validateSubagentScope (db : Database) (runId : RunId) (run : AgentRun)
    (binding : AuthorizedWorkdir) (persistedScope : String) : Except WorkerError Unit :=
  let creatorId := PyText.strip (run.createdByRunId.getD "")
  if creatorId = "" then .error (.nonRetryable "SubAgent Run 缺少创建者")
  else
    match getSubagentRunWithCreator db run.uid creatorId runId with
    | none => .error (.nonRetryable "SubAgent Run 的线程关系非法")
    | some (creator, _) =>
      if !creator.runType.isTopLevel then .error (.nonRetryable "SubAgent Run 的创建者非法")
      else
        match resolveAuthorizedWorkdir openExisting db creator.conversationThreadId run.uid with
        | .error e => .error (.service e)
        | .ok creatorBinding =>
          if persistedScope ≠ creator.runtimeScopeId then .error .foreignScope
          else
            match creator.conversationId with
            | none => .error .typeError
            | some creatorConversationId =>
              if creatorBinding.conversationId ≠ creatorConversationId ∨
                  creatorBinding.projectId ≠ binding.projectId then
                .error .foreignScope
              else .ok ()

def validateRunWorkdirBinding (db : Database) (runId : RunId) (run : AgentRun) :
    Except WorkerError AuthorizedWorkdir :=
  match resolveAuthorizedWorkdir openExisting db run.conversationThreadId run.uid with
  | .error e => .error (.service e)
  | .ok binding =>
    match run.conversationId with
    | none => .error .typeError
    | some conversationId =>
      if binding.conversationId ≠ conversationId then
        .error (.nonRetryable "AgentRun 的 Conversation 身份不一致")
      else
        let persistedScope := PyText.strip run.runtimeScopeId
        if persistedScope = "" then .error (.nonRetryable "AgentRun 缺少 runtime scope")
        else
          let checked :=
            match run.runType with
            | .chat => validateTopLevelScope run "Chat" binding persistedScope
            | .resume => validateTopLevelScope run "Resume" binding persistedScope
            | .subagent => validateSubagentScope openExisting db runId run binding persistedScope
          match checked with
          | .error e => .error e
          | .ok () => .ok binding

end

/-! ## Runtime cleanup -/

/-- `_RuntimeCleanupTarget` with the run it belongs to. -/
structure RuntimeCleanupTarget where
  runId : RunId
  uid : String
  runtimeScopeId : String
  workdirPath : String

/-- The other live runs of an execution scope. -/
def scopeBusy (db : Database) (runId : RunId) (runtimeScopeId : String) : Bool :=
  db.runs.rows.any fun e =>
    (e.2.runtimeScopeId == runtimeScopeId ||
        (db.scopes.rows.any fun s => s.2 == runtimeScopeId && s.1 == e.1)) &&
      e.1 != runId && !e.2.status.isTerminal

/-- The workdir path of the conversation that a run belongs to. -/
def cleanupWorkdir (db : Database) (runId : RunId) (run : AgentRun) (uid : String) :
    Except ServiceError String :=
  match (run.conversationId.bind db.getConversationById).filter fun e => e.2.uid == uid with
  | none => .error (.runtimeError ("Run " ++ runId ++ " 的 Conversation 身份不一致"))
  | some (threadId, conversation) =>
    match resolveConversationWorkdirBinding db threadId conversation uid with
    | .error e => .error e
    | .ok binding => .ok binding.workdirPath

/-- The cleanup fence of a run is taken down. -/
def clearFence (db : Database) (runId : RunId) : Database :=
  { db with runs := db.runs.modify runId fun run => { run with runtimeCleanupPending := false } }

/-- What the first transaction of a cleanup decides. -/
inductive CleanupDecision where
  | finished (cleaned : Bool)
  | release (target : RuntimeCleanupTarget)

/-- The first transaction of `_release_runtime_if_idle`.  `run` is the row that the
worker holds, `runtimeScopeId` the scope it resolved before, and `longLived` says
whether the scope has a persistent or resident sandbox. -/
def prepareRuntimeCleanup (db : Database) (runId : RunId) (run : AgentRun)
    (runtimeScopeId : String) (longLived : Bool) : Transaction ServiceError CleanupDecision :=
  if run.runType = .subagent then .ok (.finished false, db)
  else
    match db.runs.get runId with
    | none => .error (.runtimeError ("Run " ++ runId ++ " 不存在，不能确认 runtime cleanup Owner"))
    | some current =>
      if current.uid ≠ run.uid ∨ resolveRunScopeKey db runId current ≠ runtimeScopeId then
        .error (.runtimeError ("Run " ++ runId ++ " 的 runtime cleanup 身份不一致"))
      else if !current.runtimeCleanupPending then .ok (.finished true, db)
      else if longLived then .ok (.finished true, clearFence db runId)
      else if scopeBusy db runId runtimeScopeId then .ok (.finished false, db)
      else
        match cleanupWorkdir db runId current current.uid with
        | .error e => .error e
        | .ok workdirPath =>
          .ok (.release
            { runId := runId
              uid := current.uid
              runtimeScopeId := runtimeScopeId
              workdirPath := workdirPath }, db)

/-- The second transaction of `_release_runtime_if_idle`. -/
def confirmRuntimeCleanup (db : Database) (target : RuntimeCleanupTarget) :
    Transaction ServiceError Bool :=
  match db.runs.get target.runId with
  | none =>
    .error (.runtimeError ("Run " ++ target.runId ++ " 不存在，不能确认 runtime cleanup Owner"))
  | some current =>
    if current.uid ≠ target.uid ∨
        resolveRunScopeKey db target.runId current ≠ target.runtimeScopeId then
      .error (.runtimeError ("Run " ++ target.runId ++ " 的 runtime cleanup 身份不一致"))
    else if !current.runtimeCleanupPending then .ok (true, db)
    else if scopeBusy db target.runId target.runtimeScopeId then .ok (false, db)
    else
      match cleanupWorkdir db target.runId current target.uid with
      | .error e => .error e
      | .ok workdirPath =>
        if workdirPath ≠ target.workdirPath then
          .error (.runtimeError
            ("Run " ++ target.runId ++ " 的 Workdir 在 runtime cleanup 期间发生变化"))
        else .ok (true, clearFence db target.runId)

end Yuanlei
