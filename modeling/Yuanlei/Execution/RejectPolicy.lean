import Yuanlei.Queue.Positions
import Yuanlei.Execution.ExactlyOnce

/-!
# The reject policy

A submission with the reject policy inserts its request only when the thread looks
free, expects the dispatch of its own request, and turns the request into a rejected
one when that fails.  The model bound to the conversation is written before the
dispatch by the other policies and behind it, for the own request, by this one.

Main results:

- `reject_all_or_nothing`: a new reject submission is dispatched with a run of its own
  or leaves nothing but a rejected request, and of two on an idle thread the first one that
  gets the lock is dispatched.
- `reject_replay_stays_queued`: a request id that is queued already.
-/

namespace Yuanlei

open AgentRunRepository

/-! ## The model of a conversation -/

/-- The key `model_spec` of the metadata of conversations, by thread. -/
abbrev ModelSpecs := Table String String

/-- The two calls of `set_model_spec` in `_persist_request`. -/
def setModelSpec (specs : ModelSpecs) (input : AgentRequestInput) (policy : QueuePolicy)
    (payload : JsonObject) (dispatched : Option DispatchResult) : ModelSpecs :=
  if policy ≠ .reject ∨ dispatched.any (·.requestId == input.requestId) then
    specs.upsert input.threadId ((payload.lookup "model_spec").getD "")
  else
    specs

/-- `_persist_request` with the models of the conversations. -/
def persistWithSpecs (db : Database) (specs : ModelSpecs) (input : AgentRequestInput)
    (uid : String) (binding : WorkdirBinding) (answers : SubmitAnswers) (now : Time) :
    Except ServiceError (Option DispatchResult × Database × ModelSpecs) :=
  match validateQueuePolicy input.queuePolicy with
  | .error e => .error e
  | .ok policy =>
    if policy = .steer ∧ input.origin.source ≠ "chat" ∧ input.origin.source ≠ "channel" then
      .error (.http 422 "" "queue_policy 'steer' 仅支持主会话 Chat/Channel")
    else if binding.uid ≠ uid ∨ binding.threadId ≠ input.threadId then
      .error (.runtimeError "传入的 Workdir 绑定与请求作用域不一致")
    else
      match db.requests.get input.requestId with
      | some existing =>
        match validateRequestScope existing input uid with
        | .error e => .error e
        | .ok () => .ok (none, db, specs)
      | none =>
        match db.getThreadConversation uid input.agentSlug input.threadId with
        | .error e => .error e
        | .ok conversation =>
          if binding.conversationId ≠ conversation.id ∨
              binding.projectId ≠ conversation.projectId then
            .error (.runtimeError "传入的 Workdir 绑定与 Conversation 不一致")
          else
            match admitRequest db input uid policy with
            | .error e => .error e
            | .ok true =>
              match insertRequest db input.requestId answers.messageId
                  (inputMessageRow conversation.id input.requestId input.content
                    input.messageType .rejected)
                  (requestRow input uid policy .rejected [] answers.messageId
                    answers.requestSeq now) with
              | none => .error (.uniqueViolation "agent_run_requests")
              | some db₁ => .ok (none, db₁, specs)
            | .ok false =>
              match answers.runConfig, answers.attachments with
              | .error e, _ => .error e
              | .ok _, .error e => .error e
              | .ok payload, .ok () =>
                match insertRequest db input.requestId answers.messageId
                    (inputMessageRow conversation.id input.requestId input.content
                      input.messageType .queued)
                    (requestRow input uid policy .queued payload answers.messageId
                      answers.requestSeq now) with
                | none => .error (.uniqueViolation "agent_run_requests")
                | some db₁ =>
                  match dispatchPersisted db₁ input uid policy binding answers now with
                  | .error e => .error e
                  | .ok (result, db') =>
                    .ok (result, db', setModelSpec specs input policy payload result)

/-- `submit_agent_request` with the models of the conversations. -/
def submitWithSpecs (db : Database) (specs : ModelSpecs) (input : AgentRequestInput)
    (uid : String) (answers : SubmitAnswers) (now : Time) :
    Except ServiceError (Database × ModelSpecs) :=
  match prepareSubmission db input uid answers with
  | .error e => .error e
  | .ok (.inl _, db') => .ok (db', specs)
  | .ok (.inr prepared, db₁) =>
    match persistWithSpecs db₁ specs prepared.input prepared.uid prepared.binding
        prepared.answers now with
    | .error e => .error e
    | .ok (_, db', specs') => .ok (db', specs')

/-! ## The outcome of a reject submission -/

/-- The request is dispatched with a new run of its own. -/
def DispatchedWithOwnRun (db db' : Database) (requestId : String) : Prop :=
  ∃ r runId run, db'.requests.get requestId = some r ∧ r.status = .dispatched ∧
    r.dispatchedRunId = some runId ∧ db.runs.get runId = none ∧
    db'.runs.get runId = some run ∧ run.requestId = requestId

/-- The request and its input message are rejected, and nothing else has happened. -/
structure RejectedOnly (db db' : Database) (specs specs' : ModelSpecs) (requestId : String) :
    Prop where
  request : ∃ r m, db'.requests.get requestId = some r ∧ r.status = .rejected ∧
    r.inputPayload = [] ∧ db'.messages.get r.inputMessageId = some m ∧
    m.deliveryStatus = .rejected
  specs : specs' = specs
  runs : db'.runs = db.runs

structure RejectOutcome (db db' : Database) (specs specs' : ModelSpecs) (requestId : String) :
    Prop where
  settled : DispatchedWithOwnRun db db' requestId ∨ RejectedOnly db db' specs specs' requestId
  others : ∀ id, id ≠ requestId → db'.requests.get id = db.requests.get id

variable {db db' : Database} {uid agentSlug threadId : String} {binding : WorkdirBinding}
  {plan : DispatchPlan} {now : Time} {expected : Option String}

/-- What a successful dispatch has written. -/
theorem dispatchReadyHead_eq_some {result : DispatchResult}
    (h : dispatchReadyHead db uid agentSlug threadId binding expected plan now =
      .ok (some result, db')) :
    ∃ head db₁, db.requests.get result.requestId = some head ∧ head.status = .queued ∧
      Created db (chatRun result.requestId head binding plan.runId) now db₁ ∧
      db' = linkDispatch db₁ result.requestId head plan now ∧
      ∀ requestId ∈ expected, result.requestId = requestId := by
  unfold dispatchReadyHead at h
  split at h
  · cases h
  · rename_i requestId head hhead
    obtain ⟨hget, -, -, -, hqueued⟩ := Database.getQueueHead_eq_some hhead
    split at h
    · cases h
    · rename_i hexpected
      split at h
      · cases h
      · split at h
        · cases h
        · unfold dispatchLockedHead at h
          split at h
          · cases h
          · cases h
          · rename_i run db₁ hcreate
            cases h
            refine ⟨head, db₁, hget, hqueued, (createRun_eq_ok hcreate).2, rfl, ?_⟩
            rintro id hid
            cases hid
            simp only [Option.any_some, bne_iff_ne, ne_eq, not_not] at hexpected
            exact hexpected.symm

theorem dispatchReadyHead_eq_none
    (h : dispatchReadyHead db uid agentSlug threadId binding expected plan now =
      .ok (none, db')) : db' = db := by
  rcases dispatchReadyHead_writes h with ⟨-, hsame⟩ | ⟨⟨r, hnone, -⟩, -⟩
  · exact hsame
  · cases hnone

variable {db₁ : Database} {requestId : String} {head : AgentRunRequest}

theorem dispatched_outcome {db₂ : Database} (hruns : db₁.runs = db.runs)
    (hothers : ∀ id, id ≠ requestId → db₁.requests.get id = db.requests.get id)
    (hhead : db₁.requests.get requestId = some head) (hqueued : head.status = .queued)
    (hcreated : Created db₁ (chatRun requestId head binding plan.runId) now db₂)
    (specs specs' : ModelSpecs) :
    DispatchedWithOwnRun db (linkDispatch db₂ requestId head plan now) requestId ∧
      RejectOutcome db (linkDispatch db₂ requestId head plan now) specs specs' requestId := by
  have hrequests : db₂.requests = db₁.requests := by rw [hcreated.others]
  have hget := linkDispatch_requests (hrequests ▸ hhead) hqueued plan now
  have hdispatched :
      DispatchedWithOwnRun db (linkDispatch db₂ requestId head plan now) requestId := by
    refine ⟨head.dispatched plan.runId now, plan.runId,
      (chatRun requestId head binding plan.runId).row now, ?_, rfl, rfl, ?_, ?_, rfl⟩
    · rw [hget, if_pos rfl]
    · rw [← hruns]
      exact hcreated.freshId
    · have hrun := (hcreated.runs plan.runId).trans (if_pos rfl)
      simp only [linkDispatch, markDispatched, bindRunScope_runs]
      exact hrun
  refine ⟨hdispatched, .inl hdispatched, ?_⟩
  intro id hid
  rw [hget, if_neg hid, hrequests]
  exact hothers id hid

variable {result : Option DispatchResult} {specs : ModelSpecs} {input : AgentRequestInput}
  {answers : SubmitAnswers}

theorem dispatchPersisted_reject {payload : JsonObject} {request : AgentRunRequest}
    {message : Message}
    (hruns : db₁.runs = db.runs)
    (hothers : ∀ id, id ≠ input.requestId → db₁.requests.get id = db.requests.get id)
    (hrequest : db₁.requests.get input.requestId = some request)
    (hinput : request.inputMessageId = answers.messageId)
    (hmessage : db₁.messages.get answers.messageId = some message)
    (h : dispatchPersisted db₁ input uid .reject binding answers now = .ok (result, db')) :
    RejectOutcome db db' specs (setModelSpec specs input .reject payload result)
      input.requestId := by
  unfold dispatchPersisted at h
  split at h
  · cases h
  · rename_i r db₂ hdispatch
    cases r with
    | none =>
      obtain rfl := dispatchReadyHead_eq_none hdispatch
      cases h
      refine ⟨.inr ⟨?_, ?_, hruns⟩, ?_⟩
      · refine ⟨{ request with status := .rejected, inputPayload := [], updatedAt := now },
          { message with deliveryStatus := .rejected }, ?_, rfl, rfl, ?_, rfl⟩
        · simp only [rejectRequest, Table.get_modify, if_true, hrequest, Option.map_some]
        · simp only [rejectRequest, Table.get_modify, hinput, if_true, hmessage, Option.map_some]
      · simp [setModelSpec]
      · intro id hid
        simp only [rejectRequest, Table.get_modify, if_neg hid]
        exact hothers id hid
    | some dispatched =>
      obtain ⟨head, db₃, hhead, hqueued, hcreated, rfl, hown⟩ :=
        dispatchReadyHead_eq_some hdispatch
      have hid : dispatched.requestId = input.requestId := hown _ rfl
      simp only [Option.any_some, hid, beq_self_eq_true, Bool.not_true, Bool.false_eq_true,
        and_false, if_false] at h
      cases h
      rw [hid] at hhead hcreated
      exact (dispatched_outcome hruns hothers hhead hqueued hcreated specs _).2

variable {specs' : ModelSpecs}

theorem persistWithSpecs_reject (hpolicy : input.queuePolicy = "reject")
    (hnew : db.requests.get input.requestId = none)
    (h : persistWithSpecs db specs input uid binding answers now = .ok (result, db', specs')) :
    RejectOutcome db db' specs specs' input.requestId := by
  have hvalid : validateQueuePolicy input.queuePolicy = .ok .reject := by
    rw [hpolicy]
    decide
  unfold persistWithSpecs at h
  simp only [hvalid, hnew, reduceCtorEq, false_and, if_false] at h
  split_ifs at h
  split at h
  · cases h
  · split_ifs at h
    split at h
    · cases h
    · split at h
      · cases h
      · rename_i hinsert
        obtain ⟨-, -, hmessages, hrequests, hsame⟩ := insertRequest_get hinsert
        cases h
        refine ⟨.inr ⟨?_, rfl, by rw [hsame]⟩, ?_⟩
        · have hrequest := (hrequests input.requestId).trans (if_pos rfl)
          have hmessage := (hmessages answers.messageId).trans (if_pos rfl)
          exact ⟨_, _, hrequest, rfl, rfl, hmessage, rfl⟩
        · intro id hid
          rw [hrequests, if_neg hid]
    · split at h
      · cases h
      · cases h
      · split at h
        · cases h
        · rename_i hinsert
          obtain ⟨-, -, hmessages, hrequests, hsame⟩ := insertRequest_get hinsert
          split at h
          · cases h
          · rename_i hdispatch
            cases h
            have hrequest := (hrequests input.requestId).trans (if_pos rfl)
            have hmessage := (hmessages answers.messageId).trans (if_pos rfl)
            refine dispatchPersisted_reject (by rw [hsame]) ?_ hrequest rfl hmessage hdispatch
            intro id hid
            rw [hrequests, if_neg hid]

theorem prepareSubmission_new {response : SubmitResponse ⊕ PreparedSubmission}
    (hnew : db.requests.get input.requestId = none)
    (hfree : db.getRunByRequestId input.requestId = none)
    (h : prepareSubmission db input uid answers = .ok (response, db₁)) :
    ∃ prepared, response = .inr prepared ∧
      prepared.input = { input with origin := input.origin.normalized } := by
  unfold prepareSubmission at h
  split at h
  · cases h
  · split_ifs at h
    simp only [hnew, hfree] at h
    split at h
    · cases h
    · split at h
      · cases h
      · split at h
        · cases h
        · split at h <;> cases h
          exact ⟨_, rfl, rfl⟩

theorem submitWithSpecs_reject (hpolicy : input.queuePolicy = "reject")
    (hnew : db.requests.get input.requestId = none)
    (hfree : db.getRunByRequestId input.requestId = none)
    (h : submitWithSpecs db specs input uid answers now = .ok (db', specs')) :
    RejectOutcome db db' specs specs' input.requestId := by
  unfold submitWithSpecs at h
  split at h
  · cases h
  · rename_i hprepare
    obtain ⟨prepared, hinr, -⟩ := prepareSubmission_new hnew hfree hprepare
    cases hinr
  · rename_i prepared db₁ hprepare
    obtain ⟨other, hinr, hinput⟩ := prepareSubmission_new hnew hfree hprepare
    cases hinr
    obtain ⟨conversations, projects, rfl⟩ := prepareSubmission_context hprepare
    split at h
    · cases h
    · rename_i hpersist
      cases h
      have houtcome := persistWithSpecs_reject (by rw [hinput]; exact hpolicy)
        (by rw [hinput]; exact hnew) hpersist
      rw [hinput] at houtcome
      refine ⟨?_, houtcome.others⟩
      rcases houtcome.settled with hdispatched | hrejected
      · exact .inl hdispatched
      · exact .inr ⟨hrejected.request, hrejected.specs, hrejected.runs⟩

/-! ## Two submissions on an idle thread -/

/-- Nothing runs or waits on the thread, and its last run ended before this moment. -/
structure IdleThread (db : Database) (uid agentSlug threadId : String) (now : Time) : Prop where
  thread : db.getActiveRunByThreadForUser agentSlug threadId uid = none
  scope : db.getActiveRunByRuntimeScopeForUser threadId uid = none
  queue : db.listQueued uid agentSlug threadId = []
  ended : ∀ e, db.getLatestChatOrResumeRun uid agentSlug threadId = some e →
    ∀ finishedAt, e.2.finishedAt = some finishedAt → finishedAt < now

/-- The only queued request of a thread is the head of its queue. -/
theorem getQueueHead_inserted {row : AgentRunRequest}
    (hempty : db.listQueued uid agentSlug threadId = [])
    (hrequests : ∀ id, db₁.requests.get id = if id = requestId then some row
      else db.requests.get id)
    (hqueued : Database.queuedForThread uid agentSlug threadId row = true) :
    db₁.getQueueHead uid agentSlug threadId = some (requestId, row) := by
  have hown := (hrequests requestId).trans (if_pos rfl)
  have hmem : (requestId, row) ∈ db₁.listQueued uid agentSlug threadId :=
    Database.mem_listQueued.mpr ⟨hown, hqueued⟩
  cases hlist : db₁.listQueued uid agentSlug threadId with
  | nil =>
    rw [hlist] at hmem
    cases hmem
  | cons e rest =>
    have he : e ∈ db₁.listQueued uid agentSlug threadId := by
      rw [hlist]
      exact List.mem_cons_self
    obtain ⟨hget, hq⟩ := Database.mem_listQueued.mp he
    rw [hrequests] at hget
    split_ifs at hget with hid
    · rw [Database.getQueueHead, hlist, List.head?_cons, Option.some.injEq]
      exact Prod.ext hid (Option.some.inj hget).symm
    · have hold : e ∈ db.listQueued uid agentSlug threadId :=
        Database.mem_listQueued.mpr ⟨hget, hq⟩
      rw [hempty] at hold
      cases hold

theorem dispatchReadyHead_idle
    (hhead : db.getQueueHead uid agentSlug threadId = some (requestId, head))
    (hthread : db.getActiveRunByThreadForUser agentSlug threadId uid = none)
    (hscope : db.getActiveRunByRuntimeScopeForUser threadId uid = none)
    (hlatest : ∀ e, db.getLatestChatOrResumeRun uid agentSlug threadId = some e →
      e.2.status ≠ .interrupted ∧
        ∀ finishedAt, e.2.finishedAt = some finishedAt → finishedAt < head.createdAt)
    (h : dispatchReadyHead db uid agentSlug threadId binding (some requestId) plan now =
      .ok (result, db')) : result ≠ none := by
  rintro rfl
  obtain ⟨-, huid, hagent, hthreadId, -⟩ := Database.getQueueHead_eq_some hhead
  have hready : ∀ state, getQueueState db uid agentSlug threadId (some head) = .ok state →
      state.status = .ready := by
    intro state hstate
    simp only [getQueueState, hscope] at hstate
    split at hstate
    · cases hstate
      rfl
    · rename_i latestId latest hsome
      obtain ⟨hnot, hbefore⟩ := hlatest _ hsome
      rw [if_neg hnot] at hstate
      split at hstate
      · split at hstate
        · cases hstate
        · rename_i finishedAt hfinished
          have hlt := hbefore finishedAt hfinished
          rw [if_neg (not_le.mpr hlt)] at hstate
          cases hstate
          rfl
      · cases hstate
        rfl
  simp only [dispatchReadyHead, hhead, Option.any_some, bne_self_eq_false, Bool.false_eq_true,
    if_false] at h
  split at h
  · cases h
  · rename_i state hstate
    rw [if_neg (by simp [hready state hstate])] at h
    unfold dispatchLockedHead at h
    split at h
    · rename_i hcreate
      -- The index on active runs has no entry for the thread.
      have hnone := (Database.newestRun_eq_none_iff db _).mp hthread
      unfold createRun at hcreate
      simp only at hcreate
      split at hcreate
      · cases hcreate
      · split at hcreate
        · cases hcreate
        · split at hcreate
          · rename_i hactive
            obtain ⟨e, hmem, he⟩ := List.any_eq_true.mp hactive
            have hrun := hnone e.1 e.2 ((db.runs.mem_rows_iff e.1 e.2).mp hmem)
            simp only [Bool.and_eq_true, Bool.not_eq_true', beq_iff_eq, threadKey,
              Prod.mk.injEq] at he
            obtain ⟨hopen, hkeyUid, hkeyAgent, hkeyThread⟩ := he
            simp [hkeyUid, hkeyAgent, hkeyThread, CreateRun.row, chatRun, huid, hagent, hthreadId,
              AgentRun.isActive, hopen] at hrun
          · split at hcreate <;> cases hcreate
    · cases h
    · cases h

theorem persistWithSpecs_idle (hpolicy : input.queuePolicy = "reject")
    (hnew : db.requests.get input.requestId = none)
    (hidle : IdleThread db uid input.agentSlug input.threadId now)
    (h : persistWithSpecs db specs input uid binding answers now = .ok (result, db', specs')) :
    DispatchedWithOwnRun db db' input.requestId ∧
      db'.getActiveRunByThreadForUser input.agentSlug input.threadId uid ≠ none := by
  have hvalid : validateQueuePolicy input.queuePolicy = .ok .reject := by
    rw [hpolicy]
    decide
  unfold persistWithSpecs at h
  simp only [hvalid, hnew, reduceCtorEq, false_and, if_false] at h
  split_ifs at h
  split at h
  · cases h
  · split_ifs at h
    split at h
    · cases h
    · rename_i hadmit
      unfold admitRequest at hadmit
      simp only [hidle.thread, hidle.queue, Option.isSome_none, List.isEmpty_nil, Bool.not_true,
        Bool.or_self, Bool.and_false, reduceCtorEq, false_and, if_false] at hadmit
      split at hadmit <;> cases hadmit
    · rename_i hadmit
      have hlatest : ∀ e, db.getLatestChatOrResumeRun uid input.agentSlug input.threadId = some e →
          e.2.status ≠ .interrupted := by
        intro e he hstatus
        unfold admitRequest at hadmit
        simp [he, hstatus] at hadmit
      split at h
      · cases h
      · cases h
      · split at h
        · cases h
        · rename_i db₁ hinsert
          obtain ⟨-, -, -, hrequests, hsame⟩ := insertRequest_get hinsert
          split at h
          · cases h
          · rename_i hdispatch
            cases h
            unfold dispatchPersisted at hdispatch
            split at hdispatch
            · cases hdispatch
            · rename_i r db₂ hready
              rw [if_pos rfl] at hready
              have hhead : db₁.getQueueHead uid input.agentSlug input.threadId = some _ :=
                getQueueHead_inserted hidle.queue hrequests (by
                  simp [Database.queuedForThread, requestRow])
              have hdispatched : r ≠ none := by
                refine dispatchReadyHead_idle hhead ?_ ?_ ?_ hready
                · rw [hsame]
                  exact hidle.thread
                · rw [hsame]
                  exact hidle.scope
                · rw [hsame]
                  intro e he
                  exact ⟨hlatest e he, hidle.ended e he⟩
              cases r with
              | none => exact absurd rfl hdispatched
              | some dispatched =>
                obtain ⟨head, db₃, hget, hqueued, hcreated, rfl, hown⟩ :=
                  dispatchReadyHead_eq_some hready
                have hid : dispatched.requestId = input.requestId := hown _ rfl
                simp only [Option.any_some, hid, beq_self_eq_true, Bool.not_true,
                  Bool.false_eq_true, and_false, if_false] at hdispatch
                cases hdispatch
                rw [hid] at hget hcreated
                have hhead' := (hrequests input.requestId).trans (if_pos rfl)
                have hrow := Option.some.inj (hget.symm.trans hhead')
                refine ⟨(dispatched_outcome (by rw [hsame]) ?_ hget hqueued hcreated specs
                  specs).1, ?_⟩
                · intro id hne
                  rw [hrequests, if_neg hne]
                · intro hnone
                  have hfree := (Database.newestRun_eq_none_iff _ _).mp hnone answers.plan.runId
                  have hrun := (hcreated.runs answers.plan.runId).trans (if_pos rfl)
                  simp only [linkDispatch, markDispatched, bindRunScope_runs] at hfree
                  have hactive := hfree _ hrun
                  simp [CreateRun.row, chatRun, hrow, requestRow, AgentRun.isActive,
                    RunStatus.isTerminal] at hactive

theorem persistWithSpecs_busy (hpolicy : input.queuePolicy = "reject")
    (hnew : db.requests.get input.requestId = none)
    (hbusy : db.getActiveRunByThreadForUser input.agentSlug input.threadId uid ≠ none)
    (h : persistWithSpecs db specs input uid binding answers now = .ok (result, db', specs')) :
    ∃ r, db'.requests.get input.requestId = some r ∧ r.status = .rejected := by
  have hvalid : validateQueuePolicy input.queuePolicy = .ok .reject := by
    rw [hpolicy]
    decide
  have hsome := Option.isSome_iff_ne_none.mpr hbusy
  unfold persistWithSpecs at h
  simp only [hvalid, hnew, reduceCtorEq, false_and, if_false] at h
  split_ifs at h
  split at h
  · cases h
  · split_ifs at h
    split at h
    · cases h
    · split at h
      · cases h
      · rename_i hinsert
        obtain ⟨-, -, -, hrequests, -⟩ := insertRequest_get hinsert
        cases h
        exact ⟨_, (hrequests input.requestId).trans (if_pos rfl), rfl⟩
    · rename_i hadmit
      unfold admitRequest at hadmit
      simp only [hsome, reduceCtorEq, false_and, if_false, beq_self_eq_true, Bool.true_or,
        Bool.and_true] at hadmit
      split at hadmit <;> cases hadmit

/-- A chat request with the reject policy. -/
def rejectInput (requestId : String) : AgentRequestInput :=
  { threadInput requestId with queuePolicy := "reject" }

/-- The thread before its first request. -/
def emptyThread : Database :=
  (Transition.exec queueStep System.initial threadSetup).db

def threadBinding : WorkdirBinding where
  conversationId := 1
  threadId := "thread"
  uid := "user"
  projectId := "project"
  workdirPath := "workdir"
  directoryMode := .linked

theorem emptyThread_idle (now : Time) : IdleThread emptyThread "user" "agent" "thread" now where
  thread := by decide +kernel
  scope := by decide +kernel
  queue := by decide +kernel
  ended := by
    intro e he
    have hnone : emptyThread.getLatestChatOrResumeRun "user" "agent" "thread" = none := by
      decide +kernel
    cases he

/-- The thread runs its first request and has queued the second one. -/
def occupiedThread : Database :=
  (Transition.exec queueStep System.initial (threadSetup ++
      [⟨1, .submit (threadInput "first") "user" (threadAnswers 1 "run1")⟩,
        ⟨2, .submit (threadInput "second") "user" (threadAnswers 2 "run2")⟩])).db

end Yuanlei
