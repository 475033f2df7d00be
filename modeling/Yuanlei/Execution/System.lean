import Yuanlei.Queue.Submit
import Yuanlei.Execution.Worker
import Yuanlei.AgentRun.Frame

/-!
# The services as one transition system

Web requests, the queue, the workers and the maintenance jobs act on one database.
Transactions that lock the conversation they decide on are single steps.  A submission
to an existing conversation, cancelling and steering a request, and the cleanup of a
runtime are two steps each; what they carry from the first to the second is part of the
state.

Main results:

- `System`, `QueueEvent` and `ServiceEvent`: states and steps.
- `QueueWrite`: what a transaction of the queue does to the database.
-/

namespace Yuanlei

open Relation
open AgentRunRepository

/-! ## States and steps -/

/-- The database with the sessions that wait for a lock and the cleanups that wait for a
sandbox. -/
structure System where
  db : Database
  submissions : List PreparedSubmission
  loaded : List LoadedRequest
  targets : List RuntimeCleanupTarget

/-- The system before its first step. -/
def System.initial : System where
  db := Database.empty
  submissions := []
  loaded := []
  targets := []

/-- Steps of the request queue and of the execution of runs.  The last three stand for
other services that write messages, conversations and projects. -/
inductive QueueLabel where
  | submit (input : AgentRequestInput) (uid : String) (answers : SubmitAnswers)
  | prepareSubmit (input : AgentRequestInput) (uid : String) (answers : SubmitAnswers)
  | persistSubmit (session : Nat)
  | dispatchNext (uid agentSlug threadId : String) (plan : DispatchPlan)
  | recover (plan : String × String × String → DispatchPlan)
  | continueQueue (uid agentSlug threadId : String) (plan : DispatchPlan)
  | load (requestId uid notFoundCode : String)
  | cancel (session : Nat)
  | steer (session : Nat)
  | execute (op : Op)
  | prepareCleanup (runId : RunId) (run : AgentRun) (runtimeScopeId : String) (longLived : Bool)
  | confirmCleanup (session : Nat)
  | addMessage (messageId : Nat) (message : Message)
  | putConversation (threadId : String) (conversation : Conversation)
  | putProject (projectId : String) (project : Project)

/-- A step of the queue with its clock reading. -/
structure QueueEvent where
  now : Time
  label : QueueLabel

/-- One step of the queue. -/
def queueStep (s : System) (e : QueueEvent) : System :=
  match e.label with
  | .submit input uid answers =>
    { s with db := s.db.after (submitAgentRequest s.db input uid answers e.now) }
  | .prepareSubmit input uid answers =>
    -- A conversation that the submission creates is invisible to all others until the
    -- commit, so only submissions to an existing one are cut at the lock.
    if (s.db.conversations.get input.threadId).isNone then s
    else
      match prepareSubmission s.db input uid answers with
      | .ok (.inr prepared, _) => { s with submissions := s.submissions ++ [prepared] }
      | _ => s
  | .persistSubmit session =>
    match s.submissions[session]? with
    | none => s
    | some prepared =>
      { s with
        db := s.db.after (persistSubmission s.db prepared e.now)
        submissions := s.submissions.eraseIdx session }
  | .dispatchNext uid agentSlug threadId plan =>
    { s with db := s.db.after (dispatchNextRequest s.db uid agentSlug threadId plan e.now) }
  | .recover plan => { s with db := recoverPendingDispatches s.db plan e.now }
  | .continueQueue uid agentSlug threadId plan =>
    { s with db := s.db.after (continueThreadQueue s.db uid agentSlug threadId plan e.now) }
  | .load requestId uid notFoundCode =>
    match loadRequest s.db requestId uid notFoundCode with
    | .ok loaded => { s with loaded := s.loaded ++ [loaded] }
    | .error _ => s
  | .cancel session =>
    match s.loaded[session]? with
    | none => s
    | some loaded =>
      { s with
        db := s.db.after (cancelQueuedRequest s.db loaded e.now)
        loaded := s.loaded.eraseIdx session }
  | .steer session =>
    match s.loaded[session]? with
    | none => s
    | some loaded =>
      { s with
        db := s.db.after (steerQueuedRequest s.db loaded e.now)
        loaded := s.loaded.eraseIdx session }
  | .execute op => if op.isExecution then { s with db := step s.db ⟨e.now, op⟩ } else s
  | .prepareCleanup runId run runtimeScopeId longLived =>
    match prepareRuntimeCleanup s.db runId run runtimeScopeId longLived with
    | .error _ => s
    | .ok (.finished _, db) => { s with db := db }
    | .ok (.release target, db) => { s with db := db, targets := s.targets ++ [target] }
  | .confirmCleanup session =>
    match s.targets[session]? with
    | none => s
    | some target =>
      { s with
        db := s.db.after (confirmRuntimeCleanup s.db target)
        targets := s.targets.eraseIdx session }
  | .addMessage messageId message =>
    match s.db.messages.insert messageId message with
    | none => s
    | some messages => { s with db := { s.db with messages := messages } }
  | .putConversation threadId conversation =>
    { s with
      db := { s.db with conversations := s.db.conversations.upsert threadId conversation } }
  | .putProject projectId project =>
    { s with db := { s.db with projects := s.db.projects.upsert projectId project } }

/-- Steps of all services: those of the queue, and the creation of resume and subagent runs. -/
inductive ServiceLabel where
  | queue (label : QueueLabel)
  | resume (args : ResumeArgs) (answers : CreationAnswers)
  | startSubagent (args : SubagentArgs) (answers : CreationAnswers)

/-- A step of the services with its clock reading. -/
structure ServiceEvent where
  now : Time
  label : ServiceLabel

/-- One step of the services. -/
def serviceStep (s : System) (e : ServiceEvent) : System :=
  match e.label with
  | .queue label => queueStep s ⟨e.now, label⟩
  | .resume args answers =>
    { s with db := s.db.after (createResumeRunView s.db args answers e.now) }
  | .startSubagent args answers =>
    { s with db := s.db.after (startSubagent s.db args answers e.now) }

/-! ## Writes of the queue -/

/-- One write of a queue transaction, with what the transaction checked before it. -/
inductive QueueWrite : Database → Database → Prop
  | request {db db' : Database} {requestId : String} {messageId : Nat} {message : Message}
      {request : AgentRunRequest}
      (hstatus : request.status = .queued ∨ request.status = .rejected)
      (hundispatched : request.dispatchedRunId = none)
      (hinput : request.inputMessageId = messageId) (hmessage : message.runId = none)
      (hsteer : request.status = .queued → request.queuePolicy = .steer →
        db.getPendingSteer request.uid request.agentSlug request.conversationThreadId = .ok none)
      (hinsert : insertRequest db requestId messageId message request = some db') :
      QueueWrite db db'
  | dispatch {db db₁ : Database} {requestId : String} {head : AgentRunRequest}
      {binding : WorkdirBinding} {plan : DispatchPlan} {now : Time}
      (hhead : db.requests.get requestId = some head) (hqueued : head.status = .queued)
      (hidle : db.getActiveRunByRuntimeScopeForUser head.conversationThreadId head.uid = none)
      (hcreated : Created db (chatRun requestId head binding plan.runId) now db₁) :
      QueueWrite db (linkDispatch db₁ requestId head plan now)
  | reject {db : Database} {requestId : String} {request : AgentRunRequest} {now : Time}
      (hrequest : db.requests.get requestId = some request) (hqueued : request.status = .queued) :
      QueueWrite db (rejectRequest db requestId request.inputMessageId now)
  | execute {db : Database} (e : Event) (hexec : e.op.isExecution) : QueueWrite db (step db e)
  | fence {db : Database} (runId : RunId) : QueueWrite db (clearFence db runId)
  | message {db : Database} {messageId : Nat} {message : Message} {messages : Table Nat Message}
      (hinsert : db.messages.insert messageId message = some messages) :
      QueueWrite db { db with messages := messages }
  | context {db : Database} (conversations : Table String Conversation)
      (projects : Table String Project) :
      QueueWrite db { db with conversations := conversations, projects := projects }

/-- A sequence of queue writes. -/
abbrev QueueWrites : Database → Database → Prop :=
  ReflTransGen QueueWrite

variable {db db' : Database}

theorem QueueWrites.invariant {P : Database → Prop}
    (hwrite : ∀ {db db'}, QueueWrite db db' → P db → P db') (h : QueueWrites db db') (hdb : P db) : P db' := by
  induction h with
  | refl => exact hdb
  | tail _ hlast ih => exact hwrite hlast ih

variable {uid agentSlug threadId : String} {head : AgentRunRequest}

theorem getQueueState_idle {state : QueueState}
    (h : getQueueState db uid agentSlug threadId (some head) = .ok state)
    (hstatus : state.status = .ready ∨ state.status = .paused) :
    db.getActiveRunByRuntimeScopeForUser threadId uid = none := by
  cases hactive : db.getActiveRunByRuntimeScopeForUser threadId uid with
  | none => rfl
  | some run =>
    simp only [getQueueState, hactive, Except.ok.injEq] at h
    subst h
    simp at hstatus

variable {binding : WorkdirBinding} {now : Time} {result : Option DispatchResult}
  {requestId : String} {plan : DispatchPlan}

theorem dispatchLockedHead_writes (hhead : db.requests.get requestId = some head)
    (hqueued : head.status = .queued)
    (hidle : db.getActiveRunByRuntimeScopeForUser head.conversationThreadId head.uid = none)
    (h : dispatchLockedHead db requestId head binding plan now = .ok (result, db')) :
    (result = none ∧ db' = db) ∨
      ((∃ r, result = some r ∧ r.requestId = requestId) ∧ QueueWrite db db') := by
  unfold dispatchLockedHead at h
  cases hcreate : createRun db (chatRun requestId head binding plan.runId) now with
  | error constraint =>
    cases constraint <;> simp [hcreate] at h
    exact .inl ⟨h.1.symm, h.2.symm⟩
  | ok created =>
    simp only [hcreate, Except.ok.injEq, Prod.mk.injEq] at h
    obtain ⟨rfl, rfl⟩ := h
    exact .inr ⟨⟨_, rfl, rfl⟩, .dispatch hhead hqueued hidle (createRun_eq_ok hcreate).2⟩

theorem dispatchReadyHead_writes {expected : Option String}
    (h : dispatchReadyHead db uid agentSlug threadId binding expected plan now =
      .ok (result, db')) :
    (result = none ∧ db' = db) ∨
      ((∃ r, result = some r ∧ ∀ requestId ∈ expected, r.requestId = requestId) ∧
        QueueWrite db db') := by
  unfold dispatchReadyHead at h
  cases hhead : db.getQueueHead uid agentSlug threadId with
  | none =>
    simp only [hhead, Except.ok.injEq, Prod.mk.injEq] at h
    exact .inl ⟨h.1.symm, h.2.symm⟩
  | some e =>
    obtain ⟨requestId, head⟩ := e
    simp only [hhead] at h
    obtain ⟨hget, huid, -, hthread, hqueued⟩ := Database.getQueueHead_eq_some hhead
    split at h
    · simp only [Except.ok.injEq, Prod.mk.injEq] at h
      exact .inl ⟨h.1.symm, h.2.symm⟩
    · rename_i hexpected
      cases hstate : getQueueState db uid agentSlug threadId (some head) with
      | error e => simp [hstate] at h
      | ok state =>
        simp only [hstate] at h
        split at h
        · simp only [Except.ok.injEq, Prod.mk.injEq] at h
          exact .inl ⟨h.1.symm, h.2.symm⟩
        · rename_i hready
          have hidle := getQueueState_idle hstate (.inl (by simpa using hready))
          rw [← hthread, ← huid] at hidle
          rcases dispatchLockedHead_writes hget hqueued hidle h with hnone | ⟨hsome, hwrite⟩
          · exact .inl hnone
          · obtain ⟨r, rfl, hr⟩ := hsome
            refine .inr ⟨⟨r, rfl, fun id hid => ?_⟩, hwrite⟩
            cases hid
            simp only [Option.any_some, bne_iff_ne, ne_eq, not_not] at hexpected
            rw [hr, hexpected]

theorem dispatchNextRequest_writes (db : Database) (uid agentSlug threadId : String)
    (plan : DispatchPlan) (now : Time) :
    QueueWrites db (db.after (dispatchNextRequest db uid agentSlug threadId plan now)) := by
  cases h : dispatchNextRequest db uid agentSlug threadId plan now with
  | error e => exact .refl
  | ok result =>
    obtain ⟨run, db'⟩ := result
    unfold dispatchNextRequest at h
    split at h
    · simp only [Except.ok.injEq, Prod.mk.injEq] at h
      exact h.2 ▸ .refl
    · split at h
      · simp only [Except.ok.injEq, Prod.mk.injEq] at h
        exact h.2 ▸ .refl
      · split at h
        · cases h
        · split at h
          · simp only [Except.ok.injEq, Prod.mk.injEq] at h
            exact h.2 ▸ .refl
          · split at h
            · cases h
            · rename_i hdispatch
              cases h
              rcases dispatchReadyHead_writes hdispatch with ⟨-, rfl⟩ | ⟨-, hwrite⟩
              · exact .refl
              · exact .single hwrite

theorem recoverPendingDispatches_writes (db : Database)
    (plan : String × String × String → DispatchPlan) (now : Time) :
    QueueWrites db (recoverPendingDispatches db plan now) :=
  Transition.exec_rel (R := QueueWrites)
    (fun (db : Database) (scope : String × String × String) =>
      db.after (dispatchNextRequest db scope.1 scope.2.1 scope.2.2 (plan scope) now))
    (fun _ => .refl) (fun h₁ h₂ => h₁.trans h₂)
    (fun db scope => dispatchNextRequest_writes db scope.1 scope.2.1 scope.2.2 (plan scope) now)
    db (recoveryScopes db)

theorem continueThreadQueue_writes (db : Database) (uid agentSlug threadId : String)
    (plan : DispatchPlan) (now : Time) :
    QueueWrites db (db.after (continueThreadQueue db uid agentSlug threadId plan now)) := by
  cases h : continueThreadQueue db uid agentSlug threadId plan now with
  | error e => exact .refl
  | ok result =>
    unfold continueThreadQueue at h
    split at h
    · cases h
    · split at h
      · cases h
      · rename_i requestId head hhead
        obtain ⟨hget, huid, -, hthread, hqueued⟩ := Database.getQueueHead_eq_some hhead
        split at h
        · cases h
        · rename_i state hstate
          split at h
          · cases h
          · split at h
            · cases h
            · split at h
              · cases h
              · rename_i hpaused
                have hidle := getQueueState_idle hstate (.inr (by simpa using hpaused))
                rw [← hthread, ← huid] at hidle
                split at h
                · cases h
                · split at h
                  · cases h
                  · rename_i hdispatch
                    cases h
                    rcases dispatchLockedHead_writes hget hqueued hidle hdispatch with
                      ⟨hnone, -⟩ | ⟨-, hwrite⟩
                    · cases hnone
                    · exact .single hwrite
                  · split at h <;> cases h

/-! ## Submissions -/

variable {request : AgentRunRequest}

theorem insertRequest_get {messageId : Nat}
    {message : Message} (h : insertRequest db requestId messageId message request = some db') :
    db.messages.get messageId = none ∧ db.requests.get requestId = none ∧
      (∀ id, db'.messages.get id = if id = messageId then some message else db.messages.get id) ∧
      (∀ id, db'.requests.get id = if id = requestId then some request else db.requests.get id) ∧
      db' = { db with messages := db'.messages, requests := db'.requests } := by
  unfold insertRequest at h
  cases hmessages : db.messages.insert messageId message with
  | none => simp [hmessages] at h
  | some messages =>
    cases hrequests : db.requests.insert requestId request with
    | none => simp [hmessages, hrequests] at h
    | some requests =>
      simp only [hmessages, hrequests, Option.some.injEq] at h
      subst h
      obtain ⟨hfreshM, hgetM⟩ := Table.get_of_insert hmessages
      obtain ⟨hfreshR, hgetR⟩ := Table.get_of_insert hrequests
      exact ⟨hfreshM, hfreshR, hgetM, hgetR, rfl⟩

variable {input : AgentRequestInput} {answers : SubmitAnswers}

theorem dispatchPersisted_writes {policy : QueuePolicy}
    (hrequest : db.requests.get input.requestId = some request)
    (hqueued : request.status = .queued) (hinput : request.inputMessageId = answers.messageId)
    (h : dispatchPersisted db input uid policy binding answers now = .ok (result, db')) :
    QueueWrites db db' := by
  unfold dispatchPersisted at h
  split at h
  · cases h
  · rename_i r db₁ hdispatch
    have hcases := dispatchReadyHead_writes hdispatch
    split at h
    · rename_i hfallback
      cases h
      rcases hcases with ⟨-, rfl⟩ | ⟨⟨r', rfl, hr'⟩, -⟩
      · rw [← hinput]
        exact .single (.reject hrequest hqueued)
      · -- A reject policy expects its own request, so another one is never dispatched.
        have hown : r'.requestId = input.requestId := hr' _ (by simp [hfallback.1])
        simp [hown] at hfallback
    · cases h
      rcases hcases with ⟨-, rfl⟩ | ⟨-, hwrite⟩
      · exact .refl
      · exact .single hwrite

theorem admitRequest_steer {reject : Bool} (h : admitRequest db input uid .steer = .ok reject) :
    db.getPendingSteer uid input.agentSlug input.threadId = .ok none := by
  unfold admitRequest at h
  simp only at h
  split at h
  · cases h
  · split at h
    · cases h
    · simp only [if_true] at h
      split at h
      · cases h
      · cases h
      · rename_i hnone
        exact hnone

theorem persistRequest_writes
    (h : persistRequest db input uid binding answers now = .ok (result, db')) :
    QueueWrites db db' := by
  unfold persistRequest at h
  split at h
  · cases h
  · split_ifs at h
    split at h
    · split at h
      · cases h
      · simp only [Except.ok.injEq, Prod.mk.injEq] at h
        exact h.2 ▸ .refl
    · split at h
      · cases h
      · split_ifs at h
        split at h
        · cases h
        · split at h
          · cases h
          · rename_i hinsert
            simp only [Except.ok.injEq, Prod.mk.injEq] at h
            obtain ⟨-, rfl⟩ := h
            refine .single (.request ?_ ?_ ?_ ?_ ?_ hinsert)
            · exact .inr rfl
            · rfl
            · rfl
            · rfl
            · intro hqueued
              cases hqueued
        · rename_i hadmit
          split at h
          · cases h
          · cases h
          · split at h
            · cases h
            · rename_i db₁ hinsert
              obtain ⟨-, -, -, hget, -⟩ := insertRequest_get hinsert
              have hrequest := hget input.requestId
              rw [if_pos rfl] at hrequest
              refine ReflTransGen.trans (.single (.request ?_ ?_ ?_ ?_ ?_ hinsert))
                (dispatchPersisted_writes hrequest rfl rfl h)
              · exact .inl rfl
              · rfl
              · rfl
              · rfl
              · rintro - rfl
                exact admitRequest_steer hadmit

theorem ensureConversation_context {conversation : Conversation}
    (h : ensureConversation db input uid answers = .ok (conversation, db')) :
    ∃ conversations projects,
      db' = { db with conversations := conversations, projects := projects } := by
  unfold ensureConversation at h
  split at h
  · simp only [Except.ok.injEq, Prod.mk.injEq] at h
    exact ⟨db.conversations, db.projects, h.2.symm⟩
  · split_ifs at h
    simp only at h
    repeat' split at h
    all_goals cases h
    all_goals exact ⟨_, _, rfl⟩

theorem persistSubmission_writes (db : Database) (prepared : PreparedSubmission) (now : Time) :
    QueueWrites db (db.after (persistSubmission db prepared now)) := by
  unfold persistSubmission
  split
  · exact .refl
  · rename_i hpersist
    exact persistRequest_writes hpersist

theorem prepareSubmission_context {prepared : SubmitResponse ⊕ PreparedSubmission}
    (h : prepareSubmission db input uid answers = .ok (prepared, db')) :
    ∃ conversations projects,
      db' = { db with conversations := conversations, projects := projects } := by
  unfold prepareSubmission at h
  split at h
  · cases h
  · split_ifs at h
    simp only at h
    split at h
    · split at h <;> cases h
      exact ⟨db.conversations, db.projects, rfl⟩
    · split at h
      · split at h <;> cases h
        exact ⟨db.conversations, db.projects, rfl⟩
      · split at h
        · cases h
        · split at h
          · cases h
          · rename_i hensure
            split at h
            · cases h
            · split at h <;> cases h
              exact ensureConversation_context hensure

theorem submitAgentRequest_writes (db : Database) (input : AgentRequestInput) (uid : String)
    (answers : SubmitAnswers) (now : Time) :
    QueueWrites db (db.after (submitAgentRequest db input uid answers now)) := by
  unfold submitAgentRequest
  split
  · exact .refl
  · rename_i hprepare
    obtain ⟨conversations, projects, rfl⟩ := prepareSubmission_context hprepare
    exact .single (.context conversations projects)
  · rename_i prepared db₁ hprepare
    obtain ⟨conversations, projects, rfl⟩ := prepareSubmission_context hprepare
    cases hpersist : persistSubmission
        { db with conversations := conversations, projects := projects } prepared now with
    | error e => exact .refl
    | ok result =>
      have hwrites := persistSubmission_writes
        { db with conversations := conversations, projects := projects } prepared now
      rw [hpersist] at hwrites
      exact (ReflTransGen.single (.context conversations projects)).trans hwrites

/-! ## Cleanup -/

theorem prepareRuntimeCleanup_writes {runId : RunId} {run : AgentRun}
    {runtimeScopeId : String} {longLived : Bool} {decision : CleanupDecision}
    (h : prepareRuntimeCleanup db runId run runtimeScopeId longLived = .ok (decision, db')) :
    QueueWrites db db' := by
  unfold prepareRuntimeCleanup at h
  repeat' split at h
  all_goals cases h
  all_goals first
    | exact .refl
    | exact .single (.fence runId)

theorem confirmRuntimeCleanup_writes (db : Database) (target : RuntimeCleanupTarget) :
    QueueWrites db (db.after (confirmRuntimeCleanup db target)) := by
  unfold confirmRuntimeCleanup
  repeat' split
  all_goals first
    | exact .refl
    | exact .single (.fence target.runId)

/-! ## Steps -/

/-- The commit of a loaded request rewrites at most that request. -/
inductive CommitWrite (loaded : LoadedRequest) (now : Time) : Database → Database → Prop
  | none {db : Database} : CommitWrite loaded now db db
  | cancelled {db : Database} (hqueued : loaded.row.status = .queued) : CommitWrite loaded now db
        { db with requests := db.requests.modify loaded.requestId fun r => r.cancelled now }
  | steered {db : Database} (hqueued : loaded.row.status = .queued) : CommitWrite loaded now db
        { db with requests := db.requests.modify loaded.requestId fun r => r.steered now }

theorem cancelQueuedRequest_commit (db : Database) (loaded : LoadedRequest) (now : Time) :
    CommitWrite loaded now db (db.after (cancelQueuedRequest db loaded now)) := by
  unfold cancelQueuedRequest
  simp only
  split
  · exact .none
  · split_ifs with hmissing hdispatched hterminal hsteer
    · exact .none
    · exact .none
    · exact .none
    · exact .none
    · refine .cancelled ?_
      cases hstatus : loaded.row.status <;>
        simp [hstatus, RequestStatus.isTerminal] at hdispatched hterminal
      rfl

theorem steerQueuedRequest_commit (db : Database) (loaded : LoadedRequest) (now : Time) :
    CommitWrite loaded now db (db.after (steerQueuedRequest db loaded now)) := by
  unfold steerQueuedRequest
  simp only
  split
  · exact .none
  · split
    · exact .none
    · split
      · exact .none
      · split
        · exact .none
        · rename_i hrefused
          simp only [ne_eq, not_or, not_not] at hrefused
          split
          · exact .none
          · split_ifs
            · exact .none
            · exact .none
            · exact .steered hrefused.1

/-- A step of the queue is a sequence of queue writes, or the commit of a loaded request. -/
theorem queueStep_writes (s : System) (e : QueueEvent) : QueueWrites s.db (queueStep s e).db ∨
      ∃ session loaded, (e.label = .cancel session ∨ e.label = .steer session) ∧
        s.loaded[session]? = some loaded ∧
        CommitWrite loaded e.now s.db (queueStep s e).db := by
  obtain ⟨now, label⟩ := e
  cases label with
  | submit input uid answers => exact .inl (submitAgentRequest_writes s.db input uid answers now)
  | prepareSubmit input uid answers =>
    left
    simp only [queueStep]
    repeat' split
    all_goals exact .refl
  | persistSubmit session =>
    left
    simp only [queueStep]
    split
    · exact .refl
    · exact persistSubmission_writes s.db _ now
  | dispatchNext uid agentSlug threadId plan =>
    exact .inl (dispatchNextRequest_writes s.db uid agentSlug threadId plan now)
  | recover plan => exact .inl (recoverPendingDispatches_writes s.db plan now)
  | continueQueue uid agentSlug threadId plan =>
    exact .inl (continueThreadQueue_writes s.db uid agentSlug threadId plan now)
  | load requestId uid notFoundCode =>
    left
    simp only [queueStep]
    split <;> exact .refl
  | cancel session =>
    simp only [queueStep]
    cases hloaded : s.loaded[session]? with
    | none => exact .inl .refl
    | some loaded =>
      exact .inr ⟨session, loaded, .inl rfl, hloaded, cancelQueuedRequest_commit s.db loaded now⟩
  | steer session =>
    simp only [queueStep]
    cases hloaded : s.loaded[session]? with
    | none => exact .inl .refl
    | some loaded =>
      exact .inr ⟨session, loaded, .inr rfl, hloaded, steerQueuedRequest_commit s.db loaded now⟩
  | execute op =>
    left
    simp only [queueStep]
    split_ifs with hexec
    · exact .single (.execute ⟨now, op⟩ hexec)
    · exact .refl
  | prepareCleanup runId run runtimeScopeId longLived =>
    left
    simp only [queueStep]
    split
    · exact .refl
    · rename_i hprepare
      exact prepareRuntimeCleanup_writes hprepare
    · rename_i hprepare
      exact prepareRuntimeCleanup_writes hprepare
  | confirmCleanup session =>
    left
    simp only [queueStep]
    split
    · exact .refl
    · exact confirmRuntimeCleanup_writes s.db _
  | addMessage messageId message =>
    left
    simp only [queueStep]
    split
    · exact .refl
    · rename_i hinsert
      exact .single (.message hinsert)
  | putConversation threadId conversation =>
    exact .inl (.single (.context _ s.db.projects))
  | putProject projectId project =>
    exact .inl (.single (.context s.db.conversations _))

/-! ## A small thread -/

/-- A chat request of the thread `"thread"`. -/
def threadInput (requestId : String) : AgentRequestInput where
  agentSlug := "agent"
  threadId := "thread"
  requestId := requestId
  content := ""
  origin := { source := "chat", channel := "web" }

/-- The project of the thread. -/
def threadProject : Project where
  uid := "user"
  status := .active
  workdirPath := "workdir"
  directoryMode := .linked

/-- Answers that let a submission to the thread through. -/
def threadAnswers (messageId : Nat) (runId : RunId) : SubmitAnswers where
  agentVisible := true
  agentProjectScope := .ok ()
  agentBackend := .ok ()
  runConfig := .ok [("model_spec", "\"model\"")]
  attachments := .ok ()
  conversationId := 1
  implicitProject := ("project", threadProject)
  messageId := messageId
  requestSeq := messageId
  plan := { runId := runId, runtimeScope := "thread" }

/-- The steps that set the thread up. -/
def threadSetup : List QueueEvent :=
  [⟨0, .putProject "project" threadProject⟩, ⟨0, .putConversation "thread"
      { id := 1, uid := "user", agentId := "agent", status := .active, projectId := "project" }⟩]

end Yuanlei
