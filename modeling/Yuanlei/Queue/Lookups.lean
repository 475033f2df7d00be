import Yuanlei.AgentRun.Repository

/-!
# Queries of the run services

The read side of the repositories that the queue, resume and subagent services
use, with the workdir binding of a conversation.  Selections that the source
orders and limits to one row are the head of the sorted selection.

Main definitions:

- `getQueueHead`: the next request of a thread, steered requests first.
- `resolveConversationWorkdirBinding`: the workdir of a conversation.
-/

namespace Yuanlei

/-- What a service raises. -/
inductive ServiceError where
  | http (statusCode : Nat) (code message : String)
  | valueError (message : String)
  | runtimeError (message : String)
  | multipleResultsFound
  | runIntegrity (constraint : AgentRunRepository.RunConstraint)
  | uniqueViolation (table : String)
deriving DecidableEq

def queueConflict (code message : String) : ServiceError :=
  .http 409 code message

namespace Database

/-! ## Runs -/

/-- Newest row first; `id` breaks ties as in the queries that order by it. -/
def newestFirst (a b : RunId × AgentRun) : Prop :=
  b.2.createdAt < a.2.createdAt ∨ (a.2.createdAt = b.2.createdAt ∧ b.1 ≤ a.1)

instance : DecidableRel newestFirst := fun a b =>
  inferInstanceAs (Decidable (b.2.createdAt < a.2.createdAt ∨
    (a.2.createdAt = b.2.createdAt ∧ b.1 ≤ a.1)))

/-- The newest run of a selection. -/
def newestRun (db : Database) (p : AgentRun → Bool) : Option (RunId × AgentRun) :=
  ((db.runs.rows.filter fun e => p e.2).insertionSort newestFirst).head?

/-- `get_run_by_request_id`; the column is unique. -/
def getRunByRequestId (db : Database) (requestId : String) : Option (RunId × AgentRun) :=
  db.runs.rows.find? fun e => e.2.requestId == requestId

/-- `get_run_for_user` and `lock_run_for_user`. -/
def getRunForUser (db : Database) (runId : RunId) (uid : String) : Option AgentRun :=
  (db.runs.get runId).filter fun run => run.uid == uid

def getActiveRunByThreadForUser (db : Database) (agentSlug threadId uid : String) :
    Option (RunId × AgentRun) :=
  db.newestRun fun run =>
    run.agentSlug == agentSlug && run.uid == uid && run.conversationThreadId == threadId &&
      run.isActive

def getActiveRunByRuntimeScopeForUser (db : Database) (runtimeScopeId uid : String) :
    Option (RunId × AgentRun) :=
  db.newestRun fun run => run.runtimeScopeId == runtimeScopeId && run.uid == uid && run.isActive

def getLatestChatOrResumeRun (db : Database) (uid agentSlug threadId : String) :
    Option (RunId × AgentRun) :=
  db.newestRun fun run =>
    run.uid == uid && run.agentSlug == agentSlug && run.conversationThreadId == threadId &&
      run.runType.isTopLevel

/-! ## Requests -/

/-- Queue order: steered requests first, then by creation time and key. -/
def queueOrder (a b : String × AgentRunRequest) : Prop :=
  (a.2.queuePolicy = .steer ∧ b.2.queuePolicy ≠ .steer) ∨
    ((a.2.queuePolicy = .steer ↔ b.2.queuePolicy = .steer) ∧
      (a.2.createdAt < b.2.createdAt ∨ (a.2.createdAt = b.2.createdAt ∧ a.2.seq ≤ b.2.seq)))

instance : DecidableRel queueOrder := fun a b =>
  inferInstanceAs (Decidable ((a.2.queuePolicy = .steer ∧ b.2.queuePolicy ≠ .steer) ∨
    ((a.2.queuePolicy = .steer ↔ b.2.queuePolicy = .steer) ∧
      (a.2.createdAt < b.2.createdAt ∨ (a.2.createdAt = b.2.createdAt ∧ a.2.seq ≤ b.2.seq)))))

/-- The filter of `_queued_for_thread_query`. -/
def queuedForThread (uid agentSlug threadId : String) (request : AgentRunRequest) : Bool :=
  request.uid == uid && request.agentSlug == agentSlug &&
    request.conversationThreadId == threadId && request.status == .queued

def listQueued (db : Database) (uid agentSlug threadId : String) :
    List (String × AgentRunRequest) :=
  (db.requests.rows.filter fun e => queuedForThread uid agentSlug threadId e.2).insertionSort
    queueOrder

def getQueueHead (db : Database) (uid agentSlug threadId : String) :
    Option (String × AgentRunRequest) :=
  (db.listQueued uid agentSlug threadId).head?

/-- `get_pending_steer`: `scalar_one_or_none` raises on a second row. -/
def getPendingSteer (db : Database) (uid agentSlug threadId : String) :
    Except ServiceError (Option (String × AgentRunRequest)) :=
  match db.requests.rows.filter fun e =>
      queuedForThread uid agentSlug threadId e.2 && e.2.queuePolicy == .steer with
  | [] => .ok none
  | [e] => .ok (some e)
  | _ => .error .multipleResultsFound

def isSteerableMessageRun (db : Database) (run : AgentRun) : Bool :=
  run.status == .running && run.runType == .chat &&
    (db.requests.get run.requestId).any fun request =>
      request.source == "chat" || request.source == "channel"

/-! ## Conversations and workdirs -/

def conversationMatches (conversation : Option Conversation) (uid agentSlug : String) : Bool :=
  conversation.any fun c => c.uid == uid && c.status != .deleted && c.agentId == agentSlug

/-- `get_thread_conversation` on the locked row. -/
def getThreadConversation (db : Database) (uid agentSlug threadId : String) :
    Except ServiceError Conversation :=
  match db.conversations.get threadId with
  | none => .error (.http 404 "" "对话线程不存在")
  | some conversation =>
    if conversationMatches (some conversation) uid agentSlug then .ok conversation
    else .error (.http 404 "" "对话线程不存在")

def getConversationById (db : Database) (conversationId : Nat) : Option (String × Conversation) :=
  db.conversations.rows.find? fun e => e.2.id == conversationId

/-- `ProjectRepository.get_for_user`. -/
def getProjectForUser (db : Database) (projectId uid : String) : Option Project :=
  (db.projects.get projectId).filter fun project => project.uid == uid

/-- `ProjectRepository.lock_active_for_user`. -/
def lockActiveProjectForUser (db : Database) (projectId uid : String) : Option Project :=
  (db.projects.get projectId).filter fun project => project.uid == uid && project.status == .active

end Database

structure WorkdirBinding where
  conversationId : Nat
  threadId : String
  uid : String
  projectId : String
  workdirPath : String
  directoryMode : DirectoryMode
deriving DecidableEq

/-- `workdir_binding_from_project`; the project was read by the id that the
conversation holds. -/
def workdirBindingFromProject (threadId : String) (conversation : Conversation) (uid : String)
    (project : Option Project) : Except ServiceError WorkdirBinding :=
  match project with
  | none => .error (.runtimeError "Conversation 绑定的 Project 不存在")
  | some project =>
    if conversation.projectId = "" then
      .error (.runtimeError "Conversation 与 Project 绑定不一致")
    else if project.uid ≠ uid then .error (.runtimeError "Project 不属于当前用户")
    else if threadId = "" then .error (.runtimeError "Conversation 缺少 thread_id")
    else if project.workdirPath = "" then .error (.runtimeError "Project Workdir 绑定无效")
    else
      .ok
        { conversationId := conversation.id
          threadId := threadId
          uid := uid
          projectId := conversation.projectId
          workdirPath := project.workdirPath
          directoryMode := project.directoryMode }

def resolveConversationWorkdirBinding (db : Database) (threadId : String)
    (conversation : Conversation) (uid : String) : Except ServiceError WorkdirBinding :=
  workdirBindingFromProject threadId conversation uid
    (db.getProjectForUser conversation.projectId uid)

namespace Database

/-! ## Facts about the queries -/

theorem newestRun_eq_none_iff (db : Database) (p : AgentRun → Bool) :
    db.newestRun p = none ↔ ∀ runId run, db.runs.get runId = some run → p run = false := by
  unfold newestRun
  rw [List.head?_eq_none_iff]
  have hperm := List.perm_insertionSort newestFirst (db.runs.rows.filter fun e => p e.2)
  constructor
  · intro hnil runId run hrun
    rw [hnil] at hperm
    have hempty : (db.runs.rows.filter fun e => p e.2) = [] := List.nil_perm.mp hperm
    have hmem := (db.runs.mem_rows_iff runId run).mpr hrun
    simpa using (List.filter_eq_nil_iff.mp hempty) _ hmem
  · intro hall
    have hempty : (db.runs.rows.filter fun e => p e.2) = [] := by
      rw [List.filter_eq_nil_iff]
      rintro ⟨runId, run⟩ hmem
      simp [hall runId run ((db.runs.mem_rows_iff runId run).mp hmem)]
    rw [hempty]
    rfl

variable {db : Database} {uid : String}

theorem getQueueHead_eq_some {agentSlug threadId requestId : String} {request : AgentRunRequest}
    (h : db.getQueueHead uid agentSlug threadId = some (requestId, request)) :
    db.requests.get requestId = some request ∧ request.uid = uid ∧
      request.agentSlug = agentSlug ∧ request.conversationThreadId = threadId ∧
      request.status = .queued := by
  have hmem := (List.mem_insertionSort queueOrder).mp (List.mem_of_head? h)
  obtain ⟨hrow, hp⟩ := List.mem_filter.mp hmem
  simp only [queuedForThread, Bool.and_eq_true, beq_iff_eq] at hp
  exact ⟨(db.requests.mem_rows_iff requestId request).mp hrow, hp.1.1.1, hp.1.1.2, hp.1.2, hp.2⟩

theorem getRunForUser_eq_some {runId : RunId} {run : AgentRun}
    (h : db.getRunForUser runId uid = some run) :
    db.runs.get runId = some run ∧ run.uid = uid := by
  obtain ⟨hrun, huid⟩ := Option.filter_eq_some_iff.mp h
  exact ⟨hrun, by simpa using huid⟩

end Database

end Yuanlei
