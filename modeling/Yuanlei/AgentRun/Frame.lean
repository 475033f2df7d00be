import Yuanlei.AgentRun.Operations

/-!
# What executing runs leaves alone

The operations on existing runs write runs, attempts, tool calls and some columns of
messages.  Requests, scopes, conversations, projects and thread relations stay as they
are, and no message changes the run it belongs to.

Main results:

- `RunFrame`: the tables and columns outside the execution of runs.
- `execution_frame`: every operation on existing runs keeps them.
-/

namespace Yuanlei

/-- The part of the database that the execution of runs does not write. -/
structure RunFrame (db db' : Database) : Prop where
  scopes : db'.scopes = db.scopes
  conversations : db'.conversations = db.conversations
  projects : db'.projects = db.projects
  subagentThreads : db'.subagentThreads = db.subagentThreads
  requests : db'.requests = db.requests
  messages : ∀ id, (db'.messages.get id).map Message.runId = (db.messages.get id).map Message.runId

namespace RunFrame

variable (db : Database)

theorem refl : RunFrame db db :=
  ⟨rfl, rfl, rfl, rfl, rfl, fun _ => rfl⟩

theorem trans {db db₁ db₂ : Database} (h₁ : RunFrame db db₁) (h₂ : RunFrame db₁ db₂) :
    RunFrame db db₂ where
  scopes := h₂.scopes.trans h₁.scopes
  conversations := h₂.conversations.trans h₁.conversations
  projects := h₂.projects.trans h₁.projects
  subagentThreads := h₂.subagentThreads.trans h₁.subagentThreads
  requests := h₂.requests.trans h₁.requests
  messages := fun id => (h₂.messages id).trans (h₁.messages id)

theorem setRun (runId : RunId) (run : AgentRun) :
    RunFrame db (db.setRun runId run) :=
  ⟨rfl, rfl, rfl, rfl, rfl, fun _ => rfl⟩

theorem projectInputDeliveryStatus (run : AgentRun) :
    RunFrame db (db.projectInputDeliveryStatus run) := by
  unfold Database.projectInputDeliveryStatus
  split
  · refine ⟨rfl, rfl, rfl, rfl, rfl, fun id => ?_⟩
    rw [Table.get_modify]
    split <;> simp [Function.comp_def]
  · exact refl db

theorem closeRunningAudits (runId : RunId) (status : ExecutionStatus)
    (now : Time) (preserve : Bool) :
    RunFrame db (db.closeRunningAudits runId status now preserve) := by
  refine ⟨rfl, rfl, rfl, rfl, rfl, fun id => ?_⟩
  simp only [Database.closeRunningAudits, Table.get_mapRows, Option.map_map]
  congr 1
  funext m
  simp only [Function.comp_apply]
  split <;> rfl

theorem closeOpenAttempts (runId : RunId) (outcome : AttemptOutcome)
    (errorType errorMessage : Option String) (now : Time) :
    RunFrame db (db.closeOpenAttempts runId outcome errorType errorMessage now) :=
  ⟨rfl, rfl, rfl, rfl, rfl, fun _ => rfl⟩

theorem updateOpenAttempt (runId : RunId) (workerId : Option String)
    (f : AgentRunAttempt → AgentRunAttempt) :
    RunFrame db (db.updateOpenAttempt runId workerId f) := by
  unfold Database.updateOpenAttempt
  split
  · exact refl db
  · exact ⟨rfl, rfl, rfl, rfl, rfl, fun _ => rfl⟩

end RunFrame

namespace AgentRunRepository

/-! ## Owner operations -/

theorem LeaseOp.frame {now : Time} {db db' : Database} (h : LeaseOp now db db') :
    RunFrame db db' := by
  cases h with
  | kept => exact .refl db
  | recorded hrun howner hrecords => exact .setRun db _ _
  | opened hrun hseconds hlive hclean hclaim hclosed hinsert =>
    rw [hclosed]
    exact ⟨rfl, rfl, rfl, rfl, rfl, fun _ => rfl⟩
  | continued hrun hseconds howner => exact (RunFrame.setRun db _ _).trans (.updateOpenAttempt _ _ _ _)
  | renewed hrun hseconds howner => exact (RunFrame.setRun db _ _).trans (.updateOpenAttempt _ _ _ _)
  | released hrun howner => exact (RunFrame.setRun db _ _).trans (.updateOpenAttempt _ _ _ _)

variable (db : Database)

theorem setTerminalStatus_frame (runId : RunId) (status : RunStatus)
    (errorType errorMessage : Option String) (tokenUsage : Option JsonObject)
    (workerId : Option String) (now : Time) :
    RunFrame db (db.after
      (setTerminalStatus db runId status errorType errorMessage tokenUsage workerId now)) := by
  unfold setTerminalStatus
  simp only
  repeat' split
  all_goals first
    | exact .refl db
    | exact .setRun db _ _
    | exact (((RunFrame.setRun db _ _).trans (.projectInputDeliveryStatus _ _)).trans
        (.closeRunningAudits _ _ _ _ _)).trans (.updateOpenAttempt _ _ _ _)

/-! ## Closing operations -/

theorem closingRel_runFrame : ClosingRel RunFrame where
  refl := .refl
  trans := .trans
  child {db childId child} _ _ now := by
    unfold closeChild
    split
    · exact ((RunFrame.setRun db _ _).trans (.projectInputDeliveryStatus _ _)).trans
        (.closeOpenAttempts _ _ _ _ _ _)
    · exact .setRun db _ _
  locked {db runId run} _ now := by
    unfold requestCancelLocked
    split_ifs
    · exact .refl db
    · exact (RunFrame.setRun db _ _).trans (.projectInputDeliveryStatus _ _)
    · exact .setRun db _ _
  leaseLost _ _ _ := (((RunFrame.setRun _ _ _).trans (.projectInputDeliveryStatus _ _)).trans
    (.closeRunningAudits _ _ _ _ _)).trans (.closeOpenAttempts _ _ _ _ _ _)

theorem failNonterminalForStorageMigration_frame (now : Time) :
    RunFrame db (failNonterminalForStorageMigration db now).2 :=
  failNonterminalForStorageMigration_rel .refl .trans now (fun _ _ =>
    (((RunFrame.setRun _ _ _).trans (.projectInputDeliveryStatus _ _)).trans
      (.closeRunningAudits _ _ _ _ _)).trans (.closeOpenAttempts _ _ _ _ _ _)) db

/-- Every operation on existing runs keeps the rest of the database. -/
theorem execution_frame (e : Event) (hexec : e.op.isExecution) :
    RunFrame db (step db e) := by
  by_cases howner : e.op.isOwner
  · rcases owner_cases db e howner with hlease | ⟨runId, status, errorType, errorMessage, usage, w, hop⟩
    · exact hlease.frame
    · obtain ⟨now, op⟩ := e
      cases hop
      exact setTerminalStatus_frame db runId status errorType errorMessage usage w now
  · obtain ⟨now, op⟩ := e
    cases op with
    | requestCancelExecutionTree runId uid cascadeDescendants treeNow =>
      exact closingRel_runFrame.requestCancel db runId uid cascadeDescendants now treeNow
    | cancelActiveExecutionTreeDescendants rootId root =>
      exact closingRel_runFrame.cancelDescendants db rootId root now
    | reconcileExpiredLeases scan treeNow =>
      exact closingRel_runFrame.reconcile db scan now treeNow
    | failNonterminalForStorageMigration => exact failNonterminalForStorageMigration_frame db now
    | createRun args => cases hexec
    | others tables => cases hexec
    | _ => exact absurd rfl howner

end AgentRunRepository
end Yuanlei
