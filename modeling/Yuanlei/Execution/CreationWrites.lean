import Yuanlei.Execution.System

/-!
# Writes of the creation services

What resuming a run and starting a subagent do to the runs, with what the services
checked before.

Main results:

- `CreationWrite`: the insertion of a resume or subagent run.
- `createResumeRunView_write` and `startSubagent_write`: both services
  make at most one such write.
-/

namespace Yuanlei

open Relation
open AgentRunRepository

/-- A row was inserted into the runs. -/
structure Inserted (db : Database) (args : CreateRun) (now : Time) (db' : Database) : Prop where
  shape : (args.row now).shapeOk
  freshId : db.runs.get args.runId = none
  runs : ∀ j, db'.runs.get j = if j = args.runId then some (args.row now) else db.runs.get j

/-- A write of a creation service, with what the service checked before it. -/
inductive CreationWrite : Database → Database → Prop
  | none {db db' : Database} (hruns : db'.runs = db.runs) : CreationWrite db db'
  | resume {db db' : Database} {args : CreateRun} {now : Time} {parentId : RunId}
      {parent : AgentRun} (hinserted : Inserted db args now db')
      (htype : args.runType = .resume) (hcreator : args.createdByRunId = some parentId)
      (hparent : db.runs.get parentId = some parent) (hinterrupted : parent.status = .interrupted)
      (hidle : db.getActiveRunByThreadForUser args.agentSlug args.conversationThreadId args.uid =
        .none) :
      CreationWrite db db'
  | subagent {db db' : Database} {args : CreateRun} {now : Time} {creatorId : RunId}
      {creator : AgentRun} (hinserted : Inserted db args now db')
      (htype : args.runType = .subagent) (hcreator : args.createdByRunId = some creatorId)
      (hget : db.runs.get creatorId = some creator) (htop : creator.runType.isTopLevel) :
      CreationWrite db db'

/-! ## Shared steps -/

theorem bindRunScope_runs (db : Database) (runId : RunId) (scopeKey threadId : String) :
    (bindRunScope db runId scopeKey threadId).runs = db.runs := by
  unfold bindRunScope
  simp only
  split <;> rfl

theorem bindRunScope_requests (db : Database) (runId : RunId) (scopeKey threadId : String) :
    (bindRunScope db runId scopeKey threadId).requests = db.requests := by
  unfold bindRunScope
  simp only
  split <;> rfl

variable {db db' : Database} {now : Time} {runId : RunId} {run : AgentRun}

theorem persistAgentRunRecord_runs {args : CreateRun} {messageId : Nat} {created : Bool}
    (h : persistAgentRunRecord db args messageId now = .ok ((runId, run, created), db')) :
    ((created = true ∧ runId = args.runId ∧ run = args.row now ∧ Inserted db args now db') ∨
      (created = false ∧ db'.runs = db.runs)) ∧ db'.requests = db.requests := by
  unfold persistAgentRunRecord at h
  split at h
  · rename_i run₁ db₁ hcreate
    obtain ⟨hrow, hcreated⟩ := createRun_eq_ok hcreate
    obtain ⟨⟨rfl, rfl, rfl⟩, rfl⟩ := h
    exact ⟨.inl ⟨rfl, rfl, hrow, hcreated.shape, hcreated.freshId, hcreated.runs⟩,
      by rw [hcreated.others]⟩
  · split at h
    · obtain ⟨⟨-, -, rfl⟩, rfl⟩ := h
      exact ⟨.inr ⟨rfl, rfl⟩, rfl⟩
    · split at h <;> cases h

variable {scope : RunRequestScope}

/-- The run that a resume continues. -/
theorem resumeParent_eq_ok {parentId : RunId}
    {parent : AgentRun} (h : resumeParent db scope = .ok (parentId, parent)) :
    scope.createdByRunId = some parentId ∧ db.runs.get parentId = some parent ∧
      parent.status = .interrupted := by
  unfold resumeParent at h
  split at h
  · cases h
  · rename_i id hid
    split at h
    · cases h
    · split at h
      · cases h
      · rename_i row hrow
        split at h
        · cases h
        · split at h
          · cases h
          · rename_i hstatus
            split at h
            · cases h
            · split at h
              · cases h
              · cases h
                exact ⟨hid, (Database.getRunForUser_eq_some hrow).1, by simpa using hstatus⟩

variable {created : AgentRunCreationScope} {answers : CreationAnswers}

theorem prepareAgentRunCreationScope_eq_ok
    (h : prepareAgentRunCreationScope db scope answers = .ok created)
    (hnew : created.existingRun = none) :
    ∃ conversation, db.conversations.get scope.conversationThreadId = some conversation ∧
      conversation.uid = scope.uid ∧ conversation.status ≠ .deleted ∧
      prepareFreshRun db scope conversation = .ok created := by
  unfold prepareAgentRunCreationScope at h
  split at h
  · cases h
  · split at h
    · cases h
    · rename_i conversation hconversation
      obtain ⟨hget, hvalid⟩ := Option.filter_eq_some_iff.mp hconversation
      simp only [Bool.and_eq_true, beq_iff_eq, bne_iff_ne, ne_eq] at hvalid
      refine ⟨conversation, hget, hvalid.1, hvalid.2, ?_⟩
      split at h
      · cases h
      · split at h
        · cases h
        · split at h
          · cases h
          · split at h
            · cases h
            · cases h
            · split at h
              · split at h
                · cases h
                · split at h
                  · cases h
                  · cases h
                    cases hnew
              · exact h

theorem prepareAgentRunCreationScope_fresh
    (h : prepareAgentRunCreationScope db scope answers = .ok created)
    (hnew : created.existingRun = none) :
    db.conversations.get scope.conversationThreadId = some created.conversation ∧
      created.conversation.uid = scope.uid ∧ created.conversation.status ≠ .deleted ∧
      db.getActiveRunByThreadForUser scope.agentSlug scope.conversationThreadId scope.uid = none ∧
      ∀ parentId parent, created.parentRun = some (parentId, parent) →
        scope.createdByRunId = some parentId ∧ db.runs.get parentId = some parent ∧
          parent.status = .interrupted := by
  obtain ⟨conversation, hget, huid, hstatus, hfresh⟩ :=
    prepareAgentRunCreationScope_eq_ok h hnew
  unfold prepareFreshRun at hfresh
  simp only at hfresh
  split at hfresh
  · split at hfresh
    · cases hfresh
    · rename_i parent hparent
      split_ifs at hfresh with hbusy
      cases hfresh
      refine ⟨hget, huid, hstatus, by simpa using hbusy, ?_⟩
      intro parentId parent hsome
      cases hsome
      exact resumeParent_eq_ok hparent
  · split_ifs at hfresh with hbusy
    cases hfresh
    refine ⟨hget, huid, hstatus, by simpa using hbusy, ?_⟩
    intro parentId parent hsome
    cases hsome

/-! ## The two services -/

theorem createResumeRunView_write (db : Database) (args : ResumeArgs) (answers : CreationAnswers)
    (now : Time) : CreationWrite db (db.after (createResumeRunView db args answers now)) ∧
      (db.after (createResumeRunView db args answers now)).requests = db.requests := by
  cases h : createResumeRunView db args answers now with
  | error e => exact ⟨.none rfl, rfl⟩
  | ok result =>
    rw [Database.after_ok]
    unfold createResumeRunView at h
    split at h
    · cases h
    · split at h
      · cases h
      · rename_i scope hscope
        split at h
        · cases h
          exact ⟨.none rfl, rfl⟩
        · cases h
        · rename_i parentId parent hnew hparent
          obtain ⟨-, -, -, hidle, hspec⟩ := prepareAgentRunCreationScope_fresh hscope hnew
          obtain ⟨hcreator, hget, hinterrupted⟩ := hspec parentId parent hparent
          unfold persistResume at h
          split at h
          · cases h
          · split at h
            · cases h
            · rename_i hpersist
              obtain ⟨⟨rfl, -, -, hinserted⟩ | ⟨rfl, hruns⟩, hrequests⟩ :=
                persistAgentRunRecord_runs hpersist
              · obtain ⟨-, rfl⟩ := h
                rw [inheritRunScope, bindRunScope_requests]
                refine ⟨@CreationWrite.resume _ _
                  (resumeRun args scope.conversation parent answers) now _ _
                  ⟨hinserted.shape, hinserted.freshId, ?_⟩ rfl hcreator hget hinterrupted hidle,
                  hrequests⟩
                rw [bindRunScope_runs]
                exact hinserted.runs
              · obtain ⟨-, rfl⟩ := h
                exact ⟨.none hruns, hrequests⟩

variable {args : SubagentArgs} {creator : AgentRun}

theorem ensureThreadRelation_runs {childThreadId : String} {continuing : Bool}
    {relation : RelationId × SubagentThread}
    (h : ensureThreadRelation db args creator childThreadId continuing = .ok (relation, db')) :
    db'.runs = db.runs ∧ db'.requests = db.requests := by
  have hchild : ∀ {projectId : String} {conversation : Conversation} {db₁ : Database},
      ensureChildConversation db args childThreadId projectId = .ok (conversation, db₁) →
        db₁.runs = db.runs ∧ db₁.requests = db.requests := by
    intro projectId conversation db₁ hensure
    unfold ensureChildConversation at hensure
    simp only at hensure
    repeat' split at hensure
    all_goals cases hensure
    all_goals exact ⟨rfl, rfl⟩
  unfold ensureThreadRelation at h
  split at h
  · cases h
  · split at h
    · repeat' split at h
      all_goals cases h
      exact ⟨rfl, rfl⟩
    · split at h
      · cases h
      · split at h
        · cases h
        · rename_i hensure
          simp only at h
          split at h
          · cases h
          · split at h
            · cases h
            · cases h
              have hkept := hchild hensure
              exact hkept

theorem persistSubagent_runs {relationId : RelationId} {relation : SubagentThread}
    {conversation : Conversation}
    {modelSpec : String} {created : Bool}
    (h : persistSubagent db args creator relationId relation conversation modelSpec answers now =
      .ok ((runId, run, created), db')) :
    ((created = true ∧ runId = answers.runId ∧
      run = (subagentRun args creator relationId relation conversation modelSpec answers).row now ∧
      Inserted db (subagentRun args creator relationId relation conversation modelSpec answers) now
        db') ∨ (created = false ∧ db'.runs = db.runs)) ∧ db'.requests = db.requests := by
  unfold persistSubagent at h
  split at h
  · cases h
  · split at h
    · cases h
    · rename_i hpersist
      obtain ⟨⟨rfl, hid, hrow, hinserted⟩ | ⟨rfl, hruns⟩, hrequests⟩ :=
        persistAgentRunRecord_runs hpersist
      · simp only [if_true, Except.ok.injEq, Prod.mk.injEq] at h
        obtain ⟨⟨rfl, rfl, rfl⟩, rfl⟩ := h
        rw [inheritRunScope, bindRunScope_requests]
        refine ⟨.inl ⟨rfl, hid, hrow, hinserted.shape, hinserted.freshId, ?_⟩, hrequests⟩
        rw [bindRunScope_runs]
        exact hinserted.runs
      · obtain ⟨⟨rfl, rfl, rfl⟩, rfl⟩ := h
        exact ⟨.inr ⟨rfl, hruns⟩, hrequests⟩

theorem startSubagent_write (db : Database) (args : SubagentArgs) (answers : CreationAnswers)
    (now : Time) : CreationWrite db (db.after (startSubagent db args answers now)) ∧
      (db.after (startSubagent db args answers now)).requests = db.requests := by
  cases h : startSubagent db args answers now with
  | error e => exact ⟨.none rfl, rfl⟩
  | ok result =>
    unfold startSubagent at h
    split at h
    · cases h
    · rename_i creator hcreator
      obtain ⟨hget, -⟩ := Database.getRunForUser_eq_some hcreator
      split at h
      · cases h
      · split at h
        · cases h
        · rename_i hnotSubagent
          have htop : creator.runType.isTopLevel := by
            cases htype : creator.runType <;> simp [htype, RunType.isTopLevel] at hnotSubagent ⊢
          simp only at h
          split at h
          · cases h
          · rename_i relationId relation db₁ hrelation
            obtain ⟨hruns₁, hrequests₁⟩ := ensureThreadRelation_runs hrelation
            split at h
            · cases h
            · rename_i runId run created db₂ hrecord
              cases h
              unfold createSubagentRunRecord at hrecord
              split at hrecord
              · cases hrecord
              · split at hrecord
                · cases hrecord
                · split at hrecord
                  · cases hrecord
                  · split at hrecord
                    · cases hrecord
                      exact ⟨.none hruns₁, hrequests₁⟩
                    · split at hrecord
                      · cases hrecord
                      · split at hrecord
                        · cases hrecord
                        · obtain ⟨⟨-, -, -, hinserted⟩ | ⟨-, hruns⟩, hrequests⟩ :=
                            persistSubagent_runs hrecord
                          · refine ⟨.subagent ⟨hinserted.shape, ?_, ?_⟩ rfl rfl hget htop,
                              hrequests.trans hrequests₁⟩
                            · rw [← hruns₁]
                              exact hinserted.freshId
                            · rw [← hruns₁]
                              exact hinserted.runs
                          · exact ⟨.none (hruns.trans hruns₁), hrequests.trans hrequests₁⟩

theorem serviceStep_writes (s : System) (e : ServiceEvent) : QueueWrites s.db (serviceStep s e).db ∨
      (∃ loaded, CommitWrite loaded e.now s.db (serviceStep s e).db) ∨
      CreationWrite s.db (serviceStep s e).db := by
  obtain ⟨now, label⟩ := e
  cases label with
  | queue label =>
    rcases queueStep_writes s ⟨now, label⟩ with hwrites | ⟨-, loaded, -, -, hcommit⟩
    · exact .inl hwrites
    · exact .inr (.inl ⟨loaded, hcommit⟩)
  | resume args answers =>
    exact .inr (.inr (createResumeRunView_write s.db args answers now).1)
  | startSubagent args answers =>
    exact .inr (.inr (startSubagent_write s.db args answers now).1)

end Yuanlei
