import Yuanlei.Execution.CreationWrites

/-!
# Subagent scopes at creation and at execution

`SubagentRunService.start` stores the child thread as the runtime scope of a child run
and puts the scope of the creator into the mapping of scopes.  The worker compares the
stored scope of the child with the stored scope of the creator and does not read the
mapping.

Main results:

- `started_subagent_accepted_iff`: the worker accepts a started child exactly when
  the child thread is the scope of its creator.
- `started_subagent_rejected`: a child that the worker rejects.
-/

namespace Yuanlei

open AgentRunRepository

/-- The primary key of `conversations`: no two threads share a conversation id. -/
def Database.ConversationIdsUnique (db : Database) : Prop :=
  (db.conversations.rows.map fun e => e.2.id).Nodup

instance (db : Database) : Decidable db.ConversationIdsUnique :=
  inferInstanceAs (Decidable (db.conversations.rows.map fun e => e.2.id).Nodup)

variable {db : Database}

theorem Database.ConversationIdsUnique.eq (h : db.ConversationIdsUnique)
    {s t : String} {a b : Conversation} (ha : db.conversations.get s = some a)
    (hb : db.conversations.get t = some b) (hid : a.id = b.id) : s = t := by
  have hrowA := (db.conversations.mem_rows_iff s a).mpr ha
  have hrowB := (db.conversations.mem_rows_iff t b).mpr hb
  exact congrArg Prod.fst (List.inj_on_of_nodup_map h hrowA hrowB hid)

/-- The thread of the child: the requested one, or the one derived from the tool call. -/
def SubagentArgs.childThreadId (args : SubagentArgs) : String :=
  let requested := PyText.strip (args.requestedThreadId.getD "")
  if requested != "" then requested else args.childThreadHash

/-! ## What a start has checked -/

variable {creator : AgentRun} {projectId : String}

theorem checkParent_eq_ok {uid : String} {conversationId : Nat}
    (h : checkParent db uid creator = .ok (conversationId, projectId)) :
    ∃ parent, db.conversations.get creator.conversationThreadId = some parent ∧
      parent.uid = uid ∧ parent.status ≠ .deleted ∧ creator.conversationId = some parent.id ∧
      parent.id = conversationId ∧ parent.projectId = projectId := by
  unfold checkParent at h
  split at h
  · cases h
  · rename_i id hid
    split at h
    · cases h
    · split at h
      · cases h
      · split at h
        · cases h
        · rename_i hany
          cases h
          simp only [Bool.not_eq_true, Bool.not_eq_false', Option.any_eq_true, Bool.and_eq_true,
            beq_iff_eq, bne_iff_ne, ne_eq] at hany
          obtain ⟨parent, hget, ⟨⟨hsame, huid⟩, hstatus⟩, hproject⟩ := hany
          exact ⟨parent, hget, huid, hstatus, by rw [hsame]; exact hid, hsame, hproject⟩

variable {db' : Database} {args : SubagentArgs} {childThreadId : String}

theorem ensureChildConversation_eq_ok {child : Conversation}
    (h : ensureChildConversation db args childThreadId projectId = .ok (child, db')) :
    db'.conversations.get childThreadId = some child ∧ child.projectId = projectId ∧
      (∀ threadId c, db.conversations.get threadId = some c →
        db'.conversations.get threadId = some c) ∧
      db' = { db with conversations := db'.conversations } := by
  unfold ensureChildConversation at h
  split at h
  · rename_i conversation hget
    split at h
    · cases h
    · split at h
      · cases h
      · split at h
        · cases h
        · split at h
          · cases h
          · rename_i hproject
            cases h
            exact ⟨hget, by simpa using hproject, fun _ _ hc => hc, rfl⟩
  · simp only at h
    split at h
    · cases h
    · rename_i conversations hinsert
      cases h
      obtain ⟨hfresh, hget⟩ := Table.get_of_insert hinsert
      refine ⟨by simp [hget], rfl, ?_, rfl⟩
      intro threadId c hc
      simp only [hget]
      rw [if_neg]
      · exact hc
      · rintro rfl
        rw [hfresh] at hc
        cases hc

/-- What `_ensure_thread_relation` returns for a child thread. -/
structure RelationEnsured (db db' : Database) (uid childThreadId : String) (creator : AgentRun)
    (relationId : RelationId) (relation : SubagentThread) (parent : Conversation) : Prop where
  parentGet : db.conversations.get creator.conversationThreadId = some parent
  parentUid : parent.uid = uid
  parentStatus : parent.status ≠ .deleted
  parentId : creator.conversationId = some parent.id
  get : db'.subagentThreads.get relationId = some relation
  relationUid : relation.uid = uid
  thread : relation.childThreadId = childThreadId
  kept : ∀ threadId c, db.conversations.get threadId = some c →
    db'.conversations.get threadId = some c
  projects : db'.projects = db.projects
  childProject : db.ConversationIdsUnique → ∀ child,
    db'.conversations.get relation.childThreadId = some child →
    child.id = relation.childConversationId → child.projectId = parent.projectId

variable {relationId : RelationId} {relation : SubagentThread}

theorem ensureThreadRelation_eq_ok {continuing : Bool}
    (h : ensureThreadRelation db args creator childThreadId continuing =
      .ok ((relationId, relation), db')) :
    ∃ parent, RelationEnsured db db' args.uid childThreadId creator relationId relation parent := by
  unfold ensureThreadRelation at h
  split at h
  · cases h
  · rename_i parentConversationId parentProjectId hcheck
    obtain ⟨parent, hget, huid, hstatus, hid, -, hproject⟩ := checkParent_eq_ok hcheck
    refine ⟨parent, ?_⟩
    split at h
    · rename_i relationId₀ relation₀ hrelation
      have hmem := List.mem_of_find?_eq_some hrelation
      have hmatch := List.find?_some hrelation
      simp only [Bool.and_eq_true, beq_iff_eq] at hmatch
      split at h
      · cases h
      · split at h
        · cases h
        · split at h
          · cases h
          · rename_i threadId child hchild
            split at h
            · cases h
            · rename_i hsame
              obtain ⟨⟨rfl, rfl⟩, rfl⟩ := h
              refine ⟨hget, huid, hstatus, hid,
                (db.subagentThreads.mem_rows_iff _ _).mp hmem, hmatch.2, hmatch.1,
                fun _ _ hc => hc, rfl, ?_⟩
              intro hunique conversation hconversation hconversationId
              -- The conversation found by its id is the one of the child thread.
              have hfound := (Option.filter_eq_some_iff.mp hchild).1
              have hrow := (db.conversations.mem_rows_iff _ _).mp
                (List.mem_of_find?_eq_some hfound)
              have hfoundId := List.find?_some hfound
              simp only [beq_iff_eq] at hfoundId
              have hthread := hunique.eq hconversation hrow (hconversationId.trans hfoundId.symm)
              rw [hthread, hrow, Option.some.injEq] at hconversation
              rw [← hconversation, hproject]
              simpa using hsame
    · split at h
      · cases h
      · split at h
        · cases h
        · rename_i child db₁ hensure
          obtain ⟨hchildGet, hchildProject, hkept, hdb₁⟩ := ensureChildConversation_eq_ok hensure
          simp only at h
          split at h
          · cases h
          · split at h
            · cases h
            · rename_i relations hinsert
              simp only [Except.ok.injEq, Prod.mk.injEq] at h
              obtain ⟨⟨rfl, rfl⟩, rfl⟩ := h
              obtain ⟨-, hgetRelation⟩ := Table.get_of_insert hinsert
              refine ⟨hget, huid, hstatus, hid, by simp [hgetRelation], rfl, rfl, hkept, ?_, ?_⟩
              · rw [hdb₁]
              · intro _ conversation hconversation _
                have hchildSome := hconversation.symm.trans hchildGet
                rw [Option.some.injEq] at hchildSome
                rw [hchildSome, hchildProject, hproject]

/-! ## What a start has written -/

/-- The parts of a database that a creation service keeps around a new run. -/
structure RunAdded (db db' : Database) : Prop where
  conversations : db'.conversations = db.conversations
  projects : db'.projects = db.projects
  subagentThreads : db'.subagentThreads = db.subagentThreads

theorem bindRunScope_added (db : Database) (runId : RunId) (scopeKey threadId : String) :
    RunAdded db (bindRunScope db runId scopeKey threadId) := by
  unfold bindRunScope
  simp only
  split
  · exact ⟨rfl, rfl, rfl⟩
  · exact ⟨rfl, rfl, rfl⟩

variable {run : AgentRun} {answers : CreationAnswers} {now : Time} {runId : RunId}

theorem persistSubagent_added {conversation : Conversation}
    {modelSpec : String}
    (h : persistSubagent db args creator relationId relation conversation modelSpec answers now =
      .ok ((runId, run, true), db')) : RunAdded db db' := by
  unfold persistSubagent at h
  split at h
  · cases h
  · split at h
    · cases h
    · rename_i runId₁ run₁ created db₂ hpersist
      have hadded : created = true → RunAdded db db₂ := by
        intro hcreated
        unfold persistAgentRunRecord at hpersist
        split at hpersist
        · rename_i run₂ db₃ hcreate
          obtain ⟨-, hrow⟩ := createRun_eq_ok hcreate
          cases hpersist
          rw [hrow.others]
          exact ⟨rfl, rfl, rfl⟩
        · split at hpersist
          · obtain ⟨⟨-, -, rfl⟩, -⟩ := hpersist
            cases hcreated
          · split at hpersist <;> cases hpersist
      cases created with
      | false => simp at h
      | true =>
        simp only [if_true, Except.ok.injEq, Prod.mk.injEq] at h
        obtain ⟨-, rfl⟩ := h
        have hbind := bindRunScope_added db₂ runId₁
          (resolveRunScopeKey db₂ args.createdByRunId creator) relation.childThreadId
        obtain ⟨hc, hp, hs⟩ := hadded rfl
        exact ⟨hbind.conversations.trans hc, hbind.projects.trans hp,
          hbind.subagentThreads.trans hs⟩

/-- What holds after a start that has created a child run. -/
structure SubagentStarted (db db' : Database) (args : SubagentArgs) (creator : AgentRun)
    (relationId : RelationId) (relation : SubagentThread) (parent child : Conversation)
    (runId : RunId) (run : AgentRun) : Prop where
  creatorGet : db.runs.get args.createdByRunId = some creator
  creatorKept : db'.runs.get args.createdByRunId = some creator
  creatorUid : creator.uid = args.uid
  creatorTop : creator.runType.isTopLevel
  ensured : RelationEnsured db db' args.uid args.childThreadId creator relationId relation parent
  parentLink : creator.conversationId = some relation.parentConversationId
  childGet : db'.conversations.get args.childThreadId = some child
  childUid : child.uid = args.uid
  childStatus : child.status ≠ .deleted
  childId : child.id = relation.childConversationId
  runGet : db'.runs.get runId = some run
  runShape : run.shapeOk
  runStatus : run.status = .pending
  runType : run.runType = .subagent
  runUid : run.uid = args.uid
  runThread : run.conversationThreadId = args.childThreadId
  runScope : run.runtimeScopeId = PyText.strip args.childThreadId
  runConversation : run.conversationId = some child.id
  runCreator : run.createdByRunId = some args.createdByRunId
  runRelation : run.subagentThreadRelationId = some relationId

/-- A record that was created passed all checks of `_create_run_record`. -/
theorem createSubagentRunRecord_eq_ok
    (h : createSubagentRunRecord db args creator relationId relation answers now =
      .ok ((runId, run, true), db')) :
    ∃ child modelSpec, db.conversations.get relation.childThreadId = some child ∧
      child.uid = args.uid ∧ child.status ≠ .deleted ∧ child.id = relation.childConversationId ∧
      creator.conversationId = some relation.parentConversationId ∧
      persistSubagent db args creator relationId relation child modelSpec answers now =
        .ok ((runId, run, true), db') := by
  unfold createSubagentRunRecord at h
  split at h
  · cases h
  · split at h
    · cases h
    · rename_i scope hscope
      split at h
      · cases h
      · rename_i hchildId
        split at h
        · simp at h
        · rename_i hnew
          split at h
          · cases h
          · rename_i hlink
            split at h
            · cases h
            · rename_i modelSpec hmodel
              obtain ⟨hchild, hchildUid, hchildStatus, -, -⟩ :=
                prepareAgentRunCreationScope_fresh hscope hnew
              exact ⟨scope.conversation, modelSpec, hchild, hchildUid, hchildStatus,
                (not_not.mp hchildId).symm, not_not.mp hlink, h⟩

theorem startSubagent_eq_ok {result : SubagentStartResult}
    (h : startSubagent db args answers now = .ok (result, db')) (hcreated : result.created) :
    ∃ creator relation parent child, SubagentStarted db db' args creator result.relationId relation
      parent child result.runId result.run := by
  unfold startSubagent at h
  split at h
  · cases h
  · rename_i creator hcreator
    obtain ⟨hget, huid⟩ := Database.getRunForUser_eq_some hcreator
    split at h
    · cases h
    · split at h
      · cases h
      · rename_i hnotSubagent
        have htop : creator.runType.isTopLevel := by
          cases htype : creator.runType <;> simp [htype, RunType.isTopLevel] at hnotSubagent ⊢
        simp only at h
        split at h
        · cases h
        · rename_i relationId relation db₁ hrelation
          obtain ⟨parent, hensured⟩ := ensureThreadRelation_eq_ok hrelation
          have hruns₁ := (ensureThreadRelation_runs hrelation).1
          split at h
          · cases h
          · rename_i runId run created db₂ hrecord
            cases h
            obtain rfl : created = true := hcreated
            obtain ⟨child, modelSpec, hchild, hchildUid, hchildStatus, hchildId, hlink, hpersist⟩ :=
              createSubagentRunRecord_eq_ok hrecord
            obtain ⟨hconversations, hprojects, hthreads⟩ := persistSubagent_added hpersist
            rcases (persistSubagent_runs hpersist).1 with ⟨-, hid, hrow, hinserted⟩ | ⟨hfalse, -⟩
            · have hfresh := hinserted.freshId
              have hthread : relation.childThreadId = args.childThreadId := hensured.thread
              refine ⟨creator, relation, parent, child,
                { creatorGet := hget
                  creatorKept := ?_
                  creatorUid := huid
                  creatorTop := htop
                  ensured := ?_
                  parentLink := hlink
                  childGet := ?_
                  childUid := hchildUid
                  childStatus := hchildStatus
                  childId := hchildId
                  runGet := ?_
                  runShape := ?_
                  runStatus := by rw [hrow]; rfl
                  runType := by rw [hrow]; rfl
                  runUid := by rw [hrow]; rfl
                  runThread := by rw [hrow, ← hthread]; rfl
                  runScope := by rw [hrow, ← hthread]; rfl
                  runConversation := by rw [hrow]; rfl
                  runCreator := by rw [hrow]; rfl
                  runRelation := by rw [hrow]; rfl }⟩
              · rw [hinserted.runs, hruns₁, if_neg]
                · exact hget
                · intro heq
                  rw [hruns₁, ← heq, hget] at hfresh
                  cases hfresh
              · exact ⟨hensured.parentGet, hensured.parentUid, hensured.parentStatus,
                  hensured.parentId, hthreads ▸ hensured.get, hensured.relationUid, hthread,
                  hconversations ▸ hensured.kept, hprojects.trans hensured.projects,
                  hconversations ▸ hensured.childProject⟩
              · rw [hconversations, ← hthread]
                exact hchild
              · have hself := hinserted.runs answers.runId
                rw [hid, hrow]
                exact hself.trans (if_pos rfl)
              · rw [hrow]
                exact hinserted.shape
            · cases hfalse

/-! ## The worker on a started child -/

section
variable (openExisting : String → String → Except ServiceError Unit)

/-- The project has a working directory that the worker can open. -/
def ProjectOpens (db : Database) (projectId uid : String) : Prop :=
  ∃ project, db.getProjectForUser projectId uid = some project ∧ projectId ≠ "" ∧
    project.workdirPath ≠ "" ∧ openExisting uid project.workdirPath = .ok ()

variable {db : Database} {threadId uid : String} {conversation : Conversation}

theorem resolveAuthorizedWorkdir_of_opens (hget : db.conversations.get threadId = some conversation)
    (huid : conversation.uid = uid) (hstatus : conversation.status ≠ .deleted)
    (hthread : threadId ≠ "") (hopens : ProjectOpens openExisting db conversation.projectId uid) :
    ∃ w, resolveAuthorizedWorkdir openExisting db threadId uid = .ok w ∧
      w.conversationId = conversation.id ∧ w.projectId = conversation.projectId := by
  obtain ⟨project, hproject, hid, hpath, hopen⟩ := hopens
  have howner : project.uid = uid := by
    simpa using (Option.filter_eq_some_iff.mp hproject).2
  simp [resolveAuthorizedWorkdir, hget, Option.filter, huid, hstatus,
    resolveConversationWorkdirBinding, workdirBindingFromProject, hproject, hid, howner, hthread,
    hpath, hopen]

theorem opens_of_resolveAuthorizedWorkdir (hget : db.conversations.get threadId = some conversation)
    {w : AuthorizedWorkdir} (h : resolveAuthorizedWorkdir openExisting db threadId uid = .ok w) :
    threadId ≠ "" ∧ ProjectOpens openExisting db conversation.projectId uid := by
  unfold resolveAuthorizedWorkdir at h
  split at h
  · cases h
  · rename_i c hfound
    have hsame := (Option.filter_eq_some_iff.mp hfound).1
    rw [hget, Option.some.injEq] at hsame
    subst hsame
    split at h
    · cases h
    · rename_i binding hbinding
      split at h
      · cases h
      · rename_i hopen
        unfold resolveConversationWorkdirBinding workdirBindingFromProject at hbinding
        split at hbinding
        · cases hbinding
        · rename_i project hproject
          split_ifs at hbinding with hid howner hthread hpath
          cases hbinding
          exact ⟨hthread, project, hproject, hid, hpath, hopen⟩

variable {db db' : Database} {args : SubagentArgs} {creator run : AgentRun}
  {relationId : RelationId} {relation : SubagentThread} {parent child : Conversation}
  {runId : RunId}

section

variable (h : SubagentStarted db db' args creator relationId relation parent child runId run)
include h

theorem SubagentStarted.getSubagentRunWithCreator
    :
    getSubagentRunWithCreator db' args.uid args.createdByRunId runId = some (creator, run) := by
  have hthread : relation.childThreadId = args.childThreadId := h.ensured.thread
  have hcreator : db'.getRunForUser args.createdByRunId args.uid = some creator := by
    simp [Database.getRunForUser, h.creatorKept, Option.filter, h.creatorUid]
  have hrun : db'.getRunForUser runId args.uid = some run := by
    simp [Database.getRunForUser, h.runGet, Option.filter, h.runUid]
  have hrelation : (db'.subagentThreads.get relationId).filter
      (fun relation => relation.uid == args.uid) = some relation := by
    simp [h.ensured.get, Option.filter, h.ensured.relationUid]
  simp [Yuanlei.getSubagentRunWithCreator, hcreator, hrun, h.runType, h.runCreator, h.runRelation,
    hrelation, h.parentLink, h.runConversation, h.childId, h.runThread, hthread]

theorem SubagentStarted.nonempty
    :
    args.childThreadId ≠ "" ∧ PyText.strip args.childThreadId ≠ "" := by
  have hshape := h.runShape
  simp only [AgentRun.shapeOk, h.runStatus, RunStatus.isTerminal, Bool.false_or, Bool.and_eq_true,
    bne_iff_ne, ne_eq, h.runScope, h.runThread] at hshape
  exact ⟨hshape.1.2, hshape.1.1⟩

section

variable (hids : db.ConversationIdsUnique)
include hids

theorem SubagentStarted.opens :
    child.projectId = parent.projectId ∧
      (ProjectOpens openExisting db' parent.projectId args.uid ↔
        ProjectOpens openExisting db parent.projectId args.uid) := by
  have hthread : relation.childThreadId = args.childThreadId := h.ensured.thread
  refine ⟨h.ensured.childProject hids child (hthread ▸ h.childGet) h.childId, ?_⟩
  simp only [ProjectOpens, Database.getProjectForUser, h.ensured.projects]

theorem SubagentStarted.validate
    (hrunId : PyText.strip args.createdByRunId = args.createdByRunId ∧ args.createdByRunId ≠ "")
    (hthread : creator.conversationThreadId ≠ "")
    (hopens : ProjectOpens openExisting db parent.projectId args.uid) :
    ∃ w, validateRunWorkdirBinding openExisting db' runId run =
      if PyText.strip args.childThreadId = creator.runtimeScopeId then .ok w
      else .error .foreignScope := by
  obtain ⟨hproject, hopens'⟩ := h.opens openExisting hids
  obtain ⟨hthreadNonempty, hscopeNonempty⟩ := h.nonempty
  obtain ⟨w, hw, hwId, hwProject⟩ := resolveAuthorizedWorkdir_of_opens openExisting h.childGet
    h.childUid h.childStatus hthreadNonempty (hproject ▸ hopens'.mpr hopens)
  obtain ⟨w', hw', hwId', hwProject'⟩ := resolveAuthorizedWorkdir_of_opens openExisting
    (h.ensured.kept _ _ h.ensured.parentGet) h.ensured.parentUid h.ensured.parentStatus hthread
    (hopens'.mpr hopens)
  have hsub : validateSubagentScope openExisting db' runId run w
      (PyText.strip args.childThreadId) =
        if PyText.strip args.childThreadId = creator.runtimeScopeId then .ok ()
        else .error .foreignScope := by
    simp only [validateSubagentScope, h.runCreator, Option.getD_some, hrunId.1, hrunId.2, h.runUid,
      h.getSubagentRunWithCreator, h.creatorTop, hw', h.ensured.parentId]
    by_cases hscope : PyText.strip args.childThreadId = creator.runtimeScopeId
    · simp [hscope, hwId', hwProject, hwProject', hproject]
    · simp [hscope]
  refine ⟨w, ?_⟩
  simp only [validateRunWorkdirBinding, h.runThread, h.runUid, hw, h.runConversation, hwId,
    h.runScope, PyText.strip_strip, hscopeNonempty, h.runType, hsub]
  by_cases hscope : PyText.strip args.childThreadId = creator.runtimeScopeId
  · simp [hscope]
  · simp [hscope]

/-- Where the directory of the creator cannot be opened, the worker fails before it compares
scopes. -/
theorem SubagentStarted.validate_of_closed
    (hrunId : PyText.strip args.createdByRunId = args.createdByRunId ∧ args.createdByRunId ≠ "")
    (hclosed : ¬ (creator.conversationThreadId ≠ "" ∧
      ProjectOpens openExisting db parent.projectId args.uid)) :
    ∃ e, validateRunWorkdirBinding openExisting db' runId run = .error (.service e) := by
  obtain ⟨hproject, hopens'⟩ := h.opens openExisting hids
  obtain ⟨-, hscopeNonempty⟩ := h.nonempty
  cases hchild : resolveAuthorizedWorkdir openExisting db' args.childThreadId args.uid with
  | error e => exact ⟨e, by simp [validateRunWorkdirBinding, h.runThread, h.runUid, hchild]⟩
  | ok w =>
    obtain ⟨hthread, hopens⟩ := opens_of_resolveAuthorizedWorkdir openExisting h.childGet hchild
    rw [hproject] at hopens
    obtain ⟨w', hw', hwId, -⟩ := resolveAuthorizedWorkdir_of_opens openExisting h.childGet
      h.childUid h.childStatus hthread (hproject ▸ hopens)
    rw [hchild, Except.ok.injEq] at hw'
    subst hw'
    cases hcreator : resolveAuthorizedWorkdir openExisting db' creator.conversationThreadId
        args.uid with
    | ok w₁ =>
      obtain ⟨hcreatorThread, -⟩ := opens_of_resolveAuthorizedWorkdir openExisting
        (h.ensured.kept _ _ h.ensured.parentGet) hcreator
      exact absurd ⟨hcreatorThread, hopens'.mp hopens⟩ hclosed
    | error e =>
      refine ⟨e, ?_⟩
      simp [validateRunWorkdirBinding, h.runThread, h.runUid, hchild, h.runConversation, hwId,
        h.runScope, hscopeNonempty, h.runType, validateSubagentScope, h.runCreator, hrunId.1,
        hrunId.2, h.getSubagentRunWithCreator, h.creatorTop, hcreator]

end

end

end

/-! ## Main result -/

/-- The child run that a start has created is accepted by the worker exactly when the directory of
its creator opens and the child thread is the scope of the creator; where the directory opens and
the two differ, it is rejected as foreign to the execution tree of its creator. -/
theorem started_subagent_accepted_iff
    (openExisting : String → String → Except ServiceError Unit) (db db' : Database)
    (args : SubagentArgs) (answers : CreationAnswers) (now : Time) (result : SubagentStartResult)
    (hids : db.ConversationIdsUnique)
    (hrunId : PyText.strip args.createdByRunId = args.createdByRunId ∧ args.createdByRunId ≠ "")
    (hstart : startSubagent db args answers now = .ok (result, db')) (hcreated : result.created) :
    ∃ creator, db.runs.get args.createdByRunId = some creator ∧
      ((∃ w, validateRunWorkdirBinding openExisting db' result.runId result.run = .ok w) ↔
        (∃ w, resolveAuthorizedWorkdir openExisting db creator.conversationThreadId args.uid =
          .ok w) ∧ PyText.strip args.childThreadId = creator.runtimeScopeId) ∧
      (validateRunWorkdirBinding openExisting db' result.runId result.run = .error .foreignScope ↔
        (∃ w, resolveAuthorizedWorkdir openExisting db creator.conversationThreadId args.uid =
          .ok w) ∧ PyText.strip args.childThreadId ≠ creator.runtimeScopeId) := by
  obtain ⟨creator, relation, parent, child, h⟩ := startSubagent_eq_ok hstart hcreated
  refine ⟨creator, h.creatorGet, ?_⟩
  have hauthorised : (∃ w, resolveAuthorizedWorkdir openExisting db creator.conversationThreadId
      args.uid = .ok w) ↔ creator.conversationThreadId ≠ "" ∧
        ProjectOpens openExisting db parent.projectId args.uid := by
    constructor
    · rintro ⟨w, hw⟩
      exact opens_of_resolveAuthorizedWorkdir openExisting h.ensured.parentGet hw
    · rintro ⟨hthread, hopens⟩
      obtain ⟨w, hw, -⟩ := resolveAuthorizedWorkdir_of_opens openExisting h.ensured.parentGet
        h.ensured.parentUid h.ensured.parentStatus hthread hopens
      exact ⟨w, hw⟩
  rw [hauthorised]
  by_cases hopen : creator.conversationThreadId ≠ "" ∧
      ProjectOpens openExisting db parent.projectId args.uid
  · obtain ⟨w, hw⟩ := h.validate openExisting hids hrunId hopen.1 hopen.2
    rw [hw]
    by_cases hscope : PyText.strip args.childThreadId = creator.runtimeScopeId
    · simp [hscope, hopen]
    · simp [hscope, hopen]
  · obtain ⟨e, he⟩ := h.validate_of_closed openExisting hids hrunId hopen
    rw [he]
    simp [hopen, WorkerError.foreignScope]

/-! ## A child that is rejected -/

/-- A chat run of the thread is executing. -/
def runningCreator : List ServiceEvent :=
  (threadSetup.map fun e => ⟨e.now, .queue e.label⟩) ++
    [⟨1, .queue (.submit (threadInput "first") "user" (threadAnswers 1 "root"))⟩,
      ⟨2, .queue (.execute (.markRunning "root" "worker" 60))⟩]

/-- The executing run delegates to a new child thread. -/
def delegation : SubagentArgs where
  uid := "user"
  createdByRunId := "root"
  subagentSlug := "helper"
  content := "task"
  childThreadHash := "subagent_thread"
  requestHash := "req:call"
  runtimePayload := "null"
  conversationId := 2
  relationId := 1

/-- Answers that let the delegation through. -/
def delegationAnswers : CreationAnswers where
  userExists := true
  agentVisible := true
  agentProjectScope := .ok ()
  agentBackend := .ok ()
  modelSpec := .ok "\"model\""
  messageId := 2
  runId := "child"

/-- Whether a start creates a run that the worker then answers in the given way. -/
def startedThenValidated (db : Database) (accepts : Except WorkerError AuthorizedWorkdir → Bool) :
    Bool :=
  match startSubagent db delegation delegationAnswers 3 with
  | .error _ => false
  | .ok (result, db') =>
    result.created && accepts
      (validateRunWorkdirBinding (fun _ _ => .ok ()) db' result.runId result.run)

theorem startedThenValidated_eq_true {accepts : Except WorkerError AuthorizedWorkdir → Bool}
    (h : startedThenValidated db accepts) :
    ∃ result db', startSubagent db delegation delegationAnswers 3 = .ok (result, db') ∧
      result.created ∧ accepts
        (validateRunWorkdirBinding (fun _ _ => .ok ()) db' result.runId result.run) := by
  unfold startedThenValidated at h
  split at h
  · cases h
  · rename_i result db' hstart
    rw [Bool.and_eq_true] at h
    exact ⟨result, db', hstart, h⟩

/-- The worker answers that the run is foreign to the execution tree of its creator. -/
def answersForeign : Except WorkerError AuthorizedWorkdir → Bool
  | .error e => e == .foreignScope
  | .ok _ => false

/-- A start in a reachable state whose child the worker rejects as foreign. -/
theorem started_subagent_rejected :
    ∃ result db', startSubagent (Transition.exec serviceStep System.initial runningCreator).db
        delegation delegationAnswers 3 = .ok (result, db') ∧ result.created ∧
      validateRunWorkdirBinding (fun _ _ => .ok ()) db' result.runId result.run =
        .error .foreignScope := by
  have hrun : startedThenValidated (Transition.exec serviceStep System.initial runningCreator).db
      answersForeign := by
    decide +kernel
  obtain ⟨result, db', hstart, hcreated, hforeign⟩ := startedThenValidated_eq_true hrun
  refine ⟨result, db', hstart, hcreated, ?_⟩
  cases hanswer : validateRunWorkdirBinding (fun _ _ => .ok ()) db' result.runId result.run with
  | ok w => simp [hanswer, answersForeign] at hforeign
  | error e =>
    rw [hanswer] at hforeign
    rw [show e = .foreignScope from by simpa [answersForeign] using hforeign]

/-- The child of the delegation differs from the scope of its creator, so it is not accepted. -/
theorem started_subagent_accepted_iff_delegation :
    ∃ result db', startSubagent (Transition.exec serviceStep System.initial runningCreator).db
        delegation delegationAnswers 3 = .ok (result, db') ∧ result.created ∧
      ¬ ∃ w, validateRunWorkdirBinding (fun _ _ => .ok ()) db' result.runId result.run = .ok w := by
  have hrun : startedThenValidated (Transition.exec serviceStep System.initial runningCreator).db
      fun _ => true := by
    decide +kernel
  obtain ⟨result, db', hstart, hcreated, -⟩ := startedThenValidated_eq_true hrun
  refine ⟨result, db', hstart, hcreated, ?_⟩
  obtain ⟨creator, hcreator, haccepted, -⟩ := started_subagent_accepted_iff (fun _ _ => .ok ())
    (Transition.exec serviceStep System.initial runningCreator).db db' delegation
    delegationAnswers 3 result (by decide +kernel) (by decide +kernel) hstart hcreated
  have hscope : ((Transition.exec serviceStep System.initial runningCreator).db.runs.get
      delegation.createdByRunId).map AgentRun.runtimeScopeId = some "thread" := by
    decide +kernel
  rw [hcreator, Option.map_some, Option.some.injEq] at hscope
  rw [haccepted, hscope]
  have hchild : PyText.strip delegation.childThreadId ≠ "thread" := by decide +kernel
  exact fun h => hchild h.2

end Yuanlei
