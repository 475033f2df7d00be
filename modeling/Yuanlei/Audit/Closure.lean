import Yuanlei.Audit.Repository

/-!
# Audits of ended runs are closed

The audit repositories and the agent-run repository write the same messages: the first open and
close the audit of a call, the second closes whatever is open when a run ends.  Every write of
either is one of a few changes to messages and tool calls, and each of these keeps the invariant
that an open audit belongs to a run that was started and has not ended.

Main results:

- `AuditInv`: what holds of messages, tool calls and runs.
- `audits_closed`: the consequences for every run of the system.
-/

namespace Yuanlei

open Relation

/-! ## The system -/

namespace Audit

open AgentRunRepository (Op Event CreateRun)

/-- An operation of `AgentRunRepository` itself. -/
def isRepository : Op → Bool
  | .others _ => false
  | _ => true

/-- An operation of one of the three repositories. -/
inductive AuditOp where
  | repository (op : Op) (own : isRepository op)
  | modelStart (caller : AuditCaller) (operationId : String) (sequence : Int) (startedAt : Time)
      (metadata : AuditMetadata) (messageId : Nat)
  | modelFinish (caller : AuditCaller) (operationId content : String) (finishedAt : Time)
      (durationMs : Option Int) (usage : Option JsonObject) (metadata : AuditMetadata)
  | toolStart (caller : AuditCaller) (toolCallId toolName : String) (toolInput : JsonObject)
      (sequence : Int) (startedAt : Time) (metadata : AuditMetadata) (messageId callId : Nat)
  | toolComplete (caller : AuditCaller) (toolCallId : String) (output : Option ToolOutput)
      (content : String) (finishedAt : Time) (durationMs finishedSequence : Option Int)
  | toolFail (caller : AuditCaller) (toolCallId errorMessage : String)
      (output : Option ToolOutput) (content : String) (finishedAt : Time)
      (durationMs finishedSequence : Option Int)
  | toolObserveError (caller : AuditCaller) (toolCallId errorMessage : String)
      (finishedAt : Time) (durationMs : Option Int) (finishedSequence : Int)

/-- An operation together with the clock reading it takes. -/
structure AuditEvent where
  now : Time
  op : AuditOp

/-- The database after one operation has committed or was rolled back. -/
def step (db : Database) (e : AuditEvent) : Database :=
  match e.op with
  | .repository op _ => AgentRunRepository.step db ⟨e.now, op⟩
  | .modelStart caller operationId sequence startedAt metadata messageId =>
    db.after (ModelMessageAuditRepository.start db caller operationId sequence startedAt
      metadata messageId e.now)
  | .modelFinish caller operationId content finishedAt durationMs usage metadata =>
    db.after (ModelMessageAuditRepository.finish db caller operationId content finishedAt
      durationMs usage metadata e.now)
  | .toolStart caller toolCallId toolName toolInput sequence startedAt metadata messageId
      callId =>
      db.after (ToolMessageAuditRepository.start db caller toolCallId toolName toolInput sequence
        startedAt metadata messageId callId e.now)
  | .toolComplete caller toolCallId output content finishedAt durationMs finishedSequence =>
    db.after (ToolMessageAuditRepository.complete db caller toolCallId output content finishedAt
      durationMs finishedSequence e.now)
  | .toolFail caller toolCallId errorMessage output content finishedAt durationMs
      finishedSequence =>
      db.after (ToolMessageAuditRepository.fail db caller toolCallId errorMessage output content
        finishedAt durationMs finishedSequence e.now)
  | .toolObserveError caller toolCallId errorMessage finishedAt durationMs finishedSequence =>
    db.after (ToolMessageAuditRepository.observeError db caller toolCallId errorMessage
      finishedAt durationMs finishedSequence e.now)

/-! ## The invariant -/

/-- What a message records, without its delivery status. -/
def fact (m : Message) : Message :=
  { m with deliveryStatus := .complete }

/-- The audit has ended. -/
def IsClosed (m : Message) : Prop :=
  ∃ status, m.executionStatus = some status ∧ status ≠ .running

/-- What holds of messages, tool calls and runs. -/
structure AuditInv (db : Database) : Prop where
  /-- An open audit belongs to a run that was started and has not ended. -/
  open_run : ∀ {id m}, db.messages.get id = some m → m.executionStatus = some .running →
    m.messageType ∈ auditMessageTypes ∧ ∃ runId run, m.runId = some runId ∧
      db.runs.get runId = some run ∧ run.startedAt.isSome ∧ run.status.isTerminal = false
  started : ∀ {runId run}, db.runs.get runId = some run → run.status = .running →
    run.startedAt.isSome
  model : ∀ {id m}, db.messages.get id = some m → m.messageType = modelAuditMessageType →
    m.role = .assistant ∧ m.operationId.isSome ∧ m.runId.isSome
  tool : ∀ {id m}, db.messages.get id = some m → m.messageType = toolAuditMessageType →
    m.role = .tool ∧ m.operationId.isSome ∧ m.runId.isSome
  unique : ∀ {i j m n}, db.messages.get i = some m → db.messages.get j = some n →
    m.runId.isSome → m.operationId.isSome → m.runId = n.runId → m.operationId = n.operationId →
    m.role = n.role → i = j
  /-- A tool audit names its compatibility row, which is not pending once the audit has a result. -/
  calls : ∀ {id m}, db.messages.get id = some m → m.messageType = toolAuditMessageType →
    ∃ callId call, m.metadata.compatibilityToolCallId = some callId ∧
      db.toolCalls.get callId = some call ∧
      (m.executionStatus = some .completed ∨ m.executionStatus = some .failed →
        call.status ≠ .pending)

/-- Every closed audit stays as it is. -/
def ClosedKept (db db' : Database) : Prop :=
  ∀ id m, db.messages.get id = some m → IsClosed m →
    ∃ m', db'.messages.get id = some m' ∧ fact m' = fact m

theorem ClosedKept.refl (db : Database) : ClosedKept db db :=
  fun _ m hm _ => ⟨m, hm, rfl⟩

variable {m m' : Message}

theorem eq_of_fact {β : Type} (f : Message → β) (hf : ∀ m, f (fact m) = f m) (h : fact m' = fact m) : f m' = f m := by
  rw [← hf m', ← hf m, h]

theorem isClosed_of_fact (h : fact m' = fact m) (hm : IsClosed m) :
    IsClosed m' := by
  obtain ⟨status, hstatus, hne⟩ := hm
  refine ⟨status, ?_, hne⟩
  rw [← hstatus]
  exact eq_of_fact Message.executionStatus (fun _ => rfl) h

variable {db db₁ db₂ : Database}

theorem ClosedKept.trans (h₁ : ClosedKept db db₁)
    (h₂ : ClosedKept db₁ db₂) : ClosedKept db db₂ := by
  intro id m hm hclosed
  obtain ⟨m₁, hm₁, hfact₁⟩ := h₁ id m hm hclosed
  obtain ⟨m₂, hm₂, hfact₂⟩ := h₂ id m₁ hm₁ (isClosed_of_fact hfact₁ hclosed)
  exact ⟨m₂, hm₂, hfact₂.trans hfact₁⟩

/-- An operation keeps the invariant and, where it holds, every closed audit. -/
def Keeps (db db' : Database) : Prop :=
  AuditInv db → AuditInv db' ∧ ClosedKept db db'

theorem Keeps.refl (db : Database) : Keeps db db :=
  fun h => ⟨h, .refl db⟩

theorem Keeps.trans (h₁ : Keeps db db₁) (h₂ : Keeps db₁ db₂) :
    Keeps db db₂ := by
  intro h
  obtain ⟨hinv₁, hkept₁⟩ := h₁ h
  obtain ⟨hinv₂, hkept₂⟩ := h₂ hinv₁
  exact ⟨hinv₂, hkept₁.trans hkept₂⟩

/-! ## Changes to runs -/

/-- Runs stay, started runs stay started, and only runs that were never started or are closed
here end. -/
structure RunsKept (closing : RunId → Prop) (db db' : Database) : Prop where
  exists_run : ∀ {runId run}, db.runs.get runId = some run →
    ∃ run', db'.runs.get runId = some run' ∧ (run.startedAt.isSome → run'.startedAt.isSome)
  ended : ∀ {runId run run'}, db.runs.get runId = some run → db'.runs.get runId = some run' →
    run'.status.isTerminal → closing runId ∨ run.status.isTerminal ∨ run.startedAt = none
  running : ∀ {runId run'}, db'.runs.get runId = some run' → run'.status = .running →
    run'.startedAt.isSome ∨ ∃ run, db.runs.get runId = some run ∧ run.status = .running

variable {db' : Database} {closing : RunId → Prop}

theorem RunsKept.of_runs_eq (h : db'.runs = db.runs) : RunsKept closing db db' where
  exists_run := by
    intro runId run hrun
    rw [h]
    exact ⟨run, hrun, id⟩
  ended := by
    intro runId run run' hrun hrun' hended
    rw [h, hrun] at hrun'
    cases hrun'
    exact .inr (.inl hended)
  running := by
    intro runId run' hrun' hrunning
    rw [h] at hrun'
    exact .inr ⟨run', hrun', hrunning⟩

variable {runId : RunId} {run : AgentRun}

/-- Writing one row. -/
theorem RunsKept.of_setRun {run' : AgentRun} (hruns : db'.runs = (db.setRun runId run').runs)
    (hrun : db.runs.get runId = some run) (hstarted : run.startedAt.isSome → run'.startedAt.isSome)
    (hended : run'.status.isTerminal → closing runId ∨ run.status.isTerminal ∨
      run.startedAt = none)
    (hrunning : run'.status = .running → run'.startedAt.isSome ∨ run.status = .running) :
    RunsKept closing db db' where
  exists_run := by
    intro j row hrow
    rw [hruns]
    by_cases hj : j = runId
    · subst j
      rw [hrun] at hrow
      cases hrow
      exact ⟨run', Database.get_setRun_self db hrun run', hstarted⟩
    · rw [Database.get_setRun_of_ne db hj]
      exact ⟨row, hrow, id⟩
  ended := by
    intro j row row' hrow hrow' hterminal
    rw [hruns] at hrow'
    by_cases hj : j = runId
    · subst j
      rw [Database.get_setRun_self db hrun] at hrow'
      rw [hrun] at hrow
      cases hrow
      cases hrow'
      exact hended hterminal
    · rw [Database.get_setRun_of_ne db hj, hrow] at hrow'
      cases hrow'
      exact .inr (.inl hterminal)
  running := by
    intro j row' hrow' hstatus
    rw [hruns] at hrow'
    by_cases hj : j = runId
    · subst j
      rw [Database.get_setRun_self db hrun] at hrow'
      cases hrow'
      rcases hrunning hstatus with hstart | hbefore
      · exact .inl hstart
      · exact .inr ⟨run, hrun, hbefore⟩
    · rw [Database.get_setRun_of_ne db hj] at hrow'
      exact .inr ⟨row', hrow', hstatus⟩

/-! ## Changes to messages -/

/-- Compatibility rows stay, and a row that is not pending does not become pending. -/
def CallsKept (db db' : Database) : Prop :=
  ∀ callId call, db.toolCalls.get callId = some call →
    ∃ call', db'.toolCalls.get callId = some call' ∧
      (call.status ≠ .pending → call'.status ≠ .pending)

theorem CallsKept.of_eq (h : db'.toolCalls = db.toolCalls) :
    CallsKept db db' := by
  intro callId call hcall
  rw [h]
  exact ⟨call, hcall, id⟩

/-- The columns by which an audit is found; no operation rewrites them. -/
structure AuditKey where
  messageType : String
  role : MessageRole
  operationId : Option String
  runId : Option RunId

def auditKey (m : Message) : AuditKey :=
  ⟨m.messageType, m.role, m.operationId, m.runId⟩

/-- A change of messages: every message keeps its facts, or is an open audit of a run and is
rewritten under the same key. -/
structure Rewrites (closing : RunId → Prop) (db db' : Database) : Prop where
  runs : RunsKept closing db db'
  calls : CallsKept db db'
  messages : ∀ {id m'}, db'.messages.get id = some m' →
    ∃ m, db.messages.get id = some m ∧ auditKey m' = auditKey m ∧
      (m.messageType = toolAuditMessageType → m'.metadata.compatibilityToolCallId =
        m.metadata.compatibilityToolCallId) ∧
      (fact m' = fact m ∨ m.executionStatus = some .running) ∧
      (m'.executionStatus = some .running → m.executionStatus = some .running ∧
        (m.messageType ∈ auditMessageTypes → ∀ runId, m.runId = some runId → ¬ closing runId)) ∧
      (m.executionStatus = some .running → m.messageType = toolAuditMessageType →
        (m'.executionStatus = some .completed ∨ m'.executionStatus = some .failed) →
        ∀ callId call, m.metadata.compatibilityToolCallId = some callId →
          db'.toolCalls.get callId = some call → call.status ≠ .pending)
  stays : ∀ {id m}, db.messages.get id = some m → ∃ m', db'.messages.get id = some m'

/-- Rewriting messages keeps the invariant and the closed audits. -/
theorem Rewrites.keeps (h : Rewrites closing db db') : Keeps db db' := by
  intro hinv
  refine ⟨?_, ?_⟩
  · constructor
    · intro id m' hm' hopen
      obtain ⟨m, hm, hkey, -, -, hrunning, -⟩ := h.messages hm'
      have htype : m'.messageType = m.messageType := congrArg AuditKey.messageType hkey
      have hrunId : m'.runId = m.runId := congrArg AuditKey.runId hkey
      obtain ⟨hbefore, hnotClosing⟩ := hrunning hopen
      obtain ⟨haudit, runId, run, hrunId', hrun, hstarted, hlive⟩ := hinv.open_run hm hbefore
      obtain ⟨run', hrun', hstarted'⟩ := h.runs.exists_run hrun
      refine ⟨by rw [htype]; exact haudit, runId, run', by rw [hrunId, hrunId'], hrun',
        hstarted' hstarted, ?_⟩
      by_contra hended
      rcases h.runs.ended hrun hrun' (by simpa using hended) with hclosing | hbefore | hnever
      · exact hnotClosing haudit runId hrunId' hclosing
      · rw [hlive] at hbefore
        cases hbefore
      · rw [hnever] at hstarted
        cases hstarted
    · intro runId run' hrun' hstatus
      rcases h.runs.running hrun' hstatus with hstarted | ⟨run, hrun, hbefore⟩
      · exact hstarted
      · obtain ⟨row, hrow, hkept⟩ := h.runs.exists_run hrun
        rw [hrun'] at hrow
        cases hrow
        exact hkept (hinv.started hrun hbefore)
    · intro id m' hm' hmodel
      obtain ⟨m, hm, hkey, -⟩ := h.messages hm'
      have htype : m'.messageType = m.messageType := congrArg AuditKey.messageType hkey
      have hrole : m'.role = m.role := congrArg AuditKey.role hkey
      have hoperation : m'.operationId = m.operationId := congrArg AuditKey.operationId hkey
      have hrunId : m'.runId = m.runId := congrArg AuditKey.runId hkey
      rw [hrole, hoperation, hrunId]
      exact hinv.model hm (htype ▸ hmodel)
    · intro id m' hm' htool
      obtain ⟨m, hm, hkey, -⟩ := h.messages hm'
      have htype : m'.messageType = m.messageType := congrArg AuditKey.messageType hkey
      have hrole : m'.role = m.role := congrArg AuditKey.role hkey
      have hoperation : m'.operationId = m.operationId := congrArg AuditKey.operationId hkey
      have hrunId : m'.runId = m.runId := congrArg AuditKey.runId hkey
      rw [hrole, hoperation, hrunId]
      exact hinv.tool hm (htype ▸ htool)
    · intro i j m' n' hm' hn' hrun hoperation hsameRun hsameOperation hsameRole
      obtain ⟨m, hm, hkey, -⟩ := h.messages hm'
      obtain ⟨n, hn, hkeyN, -⟩ := h.messages hn'
      have hrunId : m'.runId = m.runId := congrArg AuditKey.runId hkey
      have hoperationId : m'.operationId = m.operationId := congrArg AuditKey.operationId hkey
      apply hinv.unique hm hn
      · rwa [← hrunId]
      · rwa [← hoperationId]
      · exact (hrunId.symm.trans hsameRun).trans (congrArg AuditKey.runId hkeyN)
      · exact (hoperationId.symm.trans hsameOperation).trans
          (congrArg AuditKey.operationId hkeyN)
      · have hrole : m'.role = m.role := congrArg AuditKey.role hkey
        exact (hrole.symm.trans hsameRole).trans (congrArg AuditKey.role hkeyN)
    · intro id m' hm' htool
      obtain ⟨m, hm, hkey, hcompatibility, hfact, -, hresult⟩ := h.messages hm'
      have htype : m'.messageType = m.messageType := congrArg AuditKey.messageType hkey
      obtain ⟨callId, call, hcallId, hcall, hdone⟩ := hinv.calls hm (htype ▸ htool)
      obtain ⟨call', hcall', hkept⟩ := h.calls callId call hcall
      refine ⟨callId, call', by rw [hcompatibility (htype ▸ htool), hcallId], hcall', ?_⟩
      intro hended
      rcases hfact with hsame | hopen
      · have hstatus := eq_of_fact Message.executionStatus (fun _ => rfl) hsame
        rw [hstatus] at hended
        exact hkept (hdone hended)
      · exact hresult hopen (htype ▸ htool) hended callId call' hcallId hcall'
  · intro id m hm hclosed
    obtain ⟨m', hm'⟩ := h.stays hm
    obtain ⟨row, hrow, -, -, hfact, -⟩ := h.messages hm'
    rw [hm] at hrow
    cases hrow
    rcases hfact with hsame | hopen
    · exact ⟨m', hm', hsame⟩
    · obtain ⟨status, hstatus, hne⟩ := hclosed
      rw [hopen] at hstatus
      exact absurd (Option.some.inj hstatus).symm hne

/-- A change of runs and delivery statuses only. -/
theorem keeps_of_quiet (hruns : RunsKept (fun _ => False) db db')
    (hcalls : db'.toolCalls = db.toolCalls)
    (hmessages : ∀ id, (db'.messages.get id).map fact = (db.messages.get id).map fact) :
    Keeps db db' := by
  suffices h : Rewrites (fun _ => False) db db' from h.keeps
  refine ⟨hruns, .of_eq hcalls, ?_, ?_⟩
  · intro id m' hm'
    have hsame := hmessages id
    rw [hm', Option.map_some] at hsame
    cases hm : db.messages.get id with
    | none =>
      rw [hm] at hsame
      cases hsame
    | some m =>
      rw [hm, Option.map_some, Option.some.injEq] at hsame
      have hstatus := eq_of_fact Message.executionStatus (fun _ => rfl) hsame
      refine ⟨m, rfl, eq_of_fact auditKey (fun _ => rfl) hsame,
        fun _ => eq_of_fact (·.metadata.compatibilityToolCallId) (fun _ => rfl) hsame,
        .inl hsame, ?_, ?_⟩
      · intro hrunning
        exact ⟨by rw [← hstatus, hrunning], fun _ _ _ hfalse => hfalse⟩
      · intro hrunning _ hended
        rw [hstatus, hrunning] at hended
        rcases hended with hended | hended <;> cases hended
  · intro id m hm
    have hsame := hmessages id
    rw [hm, Option.map_some] at hsame
    cases hm' : db'.messages.get id with
    | none =>
      rw [hm'] at hsame
      cases hsame
    | some m' => exact ⟨m', rfl⟩

/-! ## Closing the audits of a run -/

section Closing

variable (db : Database) (runId : RunId) (status : ExecutionStatus) (now : Time)
  (preserve : Bool)

theorem get_closeRunningAudits (id : Nat) :
    (db.closeRunningAudits runId status now preserve).messages.get id =
      (db.messages.get id).map fun m =>
        if m.runId = some runId ∧ m.messageType ∈ auditMessageTypes ∧
            m.executionStatus = some .running then
          { m with
            executionStatus := some status
            finishedAt := some (m.finishedAt.getD now) }
        else m := by
  simp only [Database.closeRunningAudits, Table.get_mapRows]

theorem lookup_runningToolMetadata {id : Nat} {m : Message} (hm : db.messages.get id = some m)
    (hrun : m.runId = some runId) (htype : m.messageType = toolAuditMessageType)
    (hopen : m.executionStatus = some .running) {callId : Nat}
    (hcall : m.metadata.compatibilityToolCallId = some callId) :
    ((db.runningToolMetadata runId).lookup callId).isSome := by
  obtain ⟨metadata, hmetadata⟩ : ∃ metadata, m.extraMetadata = some metadata := by
    cases hextra : m.extraMetadata with
    | none => simp [Message.metadata, hextra, AuditMetadata.empty] at hcall
    | some metadata => exact ⟨metadata, rfl⟩
  have hcompatibility : metadata.compatibilityToolCallId = some callId := by
    simpa [Message.metadata, hmetadata] using hcall
  rw [List.lookup_isSome_iff]
  refine ⟨(callId, metadata), ?_, by simp⟩
  rw [Database.runningToolMetadata, List.mem_reverse, List.mem_filterMap]
  exact ⟨(id, m), (db.messages.mem_rows_iff id m).mpr hm, by
    simp [hrun, htype, hopen, hmetadata, hcompatibility]⟩

theorem get_toolCalls_closeRunningAudits (callId : Nat) :
    (db.closeRunningAudits runId status now preserve).toolCalls.get callId =
      (db.toolCalls.get callId).map fun call =>
        if preserve then call
        else
          match (db.runningToolMetadata runId).lookup callId with
          | none => call
          | some metadata =>
            { call with
              status := .error
              errorMessage := some (Database.toolErrorMessage metadata status) } := by
  unfold Database.closeRunningAudits
  cases preserve with
  | true => simp
  | false =>
    simp only [Bool.false_eq_true, if_false, Table.get_mapRows] <;> rfl

end Closing

theorem keeps_of_closing {status : ExecutionStatus}
    (now : Time) {preserve : Bool} (hruns : RunsKept (· = runId) db db')
    (hstatus : status ≠ .running)
    (hpreserve : status = .completed ∨ status = .failed → preserve = false)
    (hcalls : db'.toolCalls = (db.closeRunningAudits runId status now preserve).toolCalls)
    (hmessages : ∀ id, (db'.messages.get id).map fact =
      ((db.closeRunningAudits runId status now preserve).messages.get id).map fact) :
    Keeps db db' := by
  suffices h : Rewrites (· = runId) db db' from h.keeps
  refine ⟨hruns, ?_, ?_, ?_⟩
  · intro callId call hcall
    rw [hcalls, get_toolCalls_closeRunningAudits, hcall]
    refine ⟨_, rfl, ?_⟩
    intro hdone
    split
    · exact hdone
    · split
      · exact hdone
      · simp
  · intro id m' hm'
    have hsame := hmessages id
    rw [hm', get_closeRunningAudits, Option.map_some] at hsame
    cases hm : db.messages.get id with
    | none =>
      rw [hm] at hsame
      cases hsame
    | some m =>
      rw [hm, Option.map_some, Option.map_some, Option.some.injEq] at hsame
      split_ifs at hsame with hcloses
      · have hnew := eq_of_fact Message.executionStatus (fun _ => rfl) hsame
        have hkey := eq_of_fact auditKey (fun _ => rfl) hsame
        have hcompatibility :=
          eq_of_fact (fun m => m.metadata.compatibilityToolCallId) (fun _ => rfl) hsame
        refine ⟨m, rfl, hkey, fun _ => hcompatibility, .inr hcloses.2.2, ?_, ?_⟩
        · intro hrunning
          rw [hnew] at hrunning
          exact absurd (Option.some.inj hrunning) hstatus
        · intro _ htool hended callId call hcallId hcall
          have hresult : status = .completed ∨ status = .failed := by
            rw [hnew] at hended
            simpa using hended
          have hlookup := lookup_runningToolMetadata db runId hm hcloses.1 htool hcloses.2.2
            hcallId
          rw [hcalls, get_toolCalls_closeRunningAudits, hpreserve hresult] at hcall
          cases hbefore : db.toolCalls.get callId with
          | none =>
            rw [hbefore] at hcall
            cases hcall
          | some before =>
            obtain ⟨metadata, hmetadata⟩ := Option.isSome_iff_exists.mp hlookup
            rw [hbefore] at hcall
            simp only [Bool.false_eq_true, if_false, hmetadata, Option.map_some,
              Option.some.injEq] at hcall
            rw [← hcall]
            simp
      · have hsameStatus := eq_of_fact Message.executionStatus (fun _ => rfl) hsame
        refine ⟨m, rfl, eq_of_fact auditKey (fun _ => rfl) hsame,
          fun _ => eq_of_fact (·.metadata.compatibilityToolCallId) (fun _ => rfl) hsame,
          .inl hsame, ?_, ?_⟩
        · intro hrunning
          rw [hsameStatus] at hrunning
          refine ⟨hrunning, ?_⟩
          rintro haudit r hr rfl
          exact hcloses ⟨hr, haudit, hrunning⟩
        · intro hrunning _ hended
          rw [hsameStatus, hrunning] at hended
          rcases hended with hended | hended <;> cases hended
  · intro id m hm
    have hsame := hmessages id
    rw [get_closeRunningAudits, hm, Option.map_some, Option.map_some] at hsame
    cases hm' : db'.messages.get id with
    | none =>
      rw [hm'] at hsame
      cases hsame
    | some m' => exact ⟨m', rfl⟩

/-! ## The agent-run repository -/

section Repository

open AgentRunRepository

variable {db : Database} {runId : RunId} {run : AgentRun} {db' : Database} (run' : AgentRun)

theorem keeps_of_setRun (hruns : db'.runs = (db.setRun runId run').runs)
    (hrun : db.runs.get runId = some run)
    (hstarted : run.startedAt.isSome → run'.startedAt.isSome)
    (hended : run'.status.isTerminal → run.status.isTerminal ∨ run.startedAt = none)
    (hrunning : run'.status = .running → run'.startedAt.isSome ∨ run.status = .running)
    (hcalls : db'.toolCalls = db.toolCalls)
    (hmessages : ∀ id, (db'.messages.get id).map fact = (db.messages.get id).map fact) :
    Keeps db db' :=
  keeps_of_quiet (.of_setRun hruns hrun hstarted (fun h => .inr (hended h)) hrunning) hcalls
    hmessages

theorem fact_projectInputDeliveryStatus (db : Database) (run : AgentRun) (id : Nat) :
    ((db.projectInputDeliveryStatus run).messages.get id).map fact =
      (db.messages.get id).map fact := by
  unfold Database.projectInputDeliveryStatus
  split
  · rw [Table.get_modify]
    split
    · rw [Option.map_map]
      rfl
    · rfl
  · rfl

theorem toolCalls_projectInputDeliveryStatus (db : Database) (run : AgentRun) :
    (db.projectInputDeliveryStatus run).toolCalls = db.toolCalls := by
  unfold Database.projectInputDeliveryStatus
  split <;> rfl

theorem updateOpenAttempt_messages (db : Database) (runId : RunId) (workerId : Option String)
    (f : AgentRunAttempt → AgentRunAttempt) :
    (db.updateOpenAttempt runId workerId f).messages = db.messages ∧
      (db.updateOpenAttempt runId workerId f).toolCalls = db.toolCalls := by
  unfold Database.updateOpenAttempt
  split
  · exact ⟨rfl, rfl⟩
  · exact ⟨rfl, rfl⟩

theorem keeps_updateOpenAttempt (workerId : Option String) (f : AgentRunAttempt → AgentRunAttempt)
    (hrun : db.runs.get runId = some run) (hstarted : run.startedAt.isSome → run'.startedAt.isSome)
    (hended : run'.status.isTerminal → run.status.isTerminal ∨ run.startedAt = none)
    (hrunning : run'.status = .running → run'.startedAt.isSome ∨ run.status = .running) :
    Keeps db ((db.setRun runId run').updateOpenAttempt runId workerId f) := by
  have hmessages := updateOpenAttempt_messages (db.setRun runId run') runId workerId f
  apply keeps_of_setRun run' (Database.updateOpenAttempt_runs ..) hrun hstarted hended hrunning
  · exact hmessages.2
  · intro id
    rw [hmessages.1]
    rfl

theorem keeps_record {run' : AgentRun}
    (hrun : db.runs.get runId = some run) (hstarted : run'.startedAt = run.startedAt)
    (hstatus : run'.status = run.status) : Keeps db (db.setRun runId run') := by
  apply keeps_of_setRun run' rfl hrun
  · rw [hstarted]
    exact id
  · rw [hstatus]
    exact .inl
  · rw [hstatus]
    exact .inr
  · rfl
  · intro id
    rfl

theorem keeps_createRun (db : Database) (args : CreateRun) (now : Time) :
    Keeps db (db.after (createRun db args now)) := by
  cases hcreate : createRun db args now with
  | error e => exact .refl db
  | ok result =>
    obtain ⟨run, db'⟩ := result
    obtain ⟨-, hcreated⟩ := createRun_eq_ok hcreate
    have hmessages : db'.messages = db.messages := by rw [hcreated.others]
    have hcalls : db'.toolCalls = db.toolCalls := by rw [hcreated.others]
    refine keeps_of_quiet ⟨?_, ?_, ?_⟩ hcalls fun id => by rw [Database.after_ok, hmessages]
    · intro runId row hrow
      have hne : runId ≠ args.runId := by
        rintro rfl
        rw [hcreated.freshId] at hrow
        cases hrow
      exact ⟨row, by rw [Database.after_ok, hcreated.runs, if_neg hne, hrow], id⟩
    · intro runId row row' hrow hrow' hended
      have hne : runId ≠ args.runId := by
        rintro rfl
        rw [hcreated.freshId] at hrow
        cases hrow
      rw [Database.after_ok, hcreated.runs, if_neg hne, hrow] at hrow'
      cases hrow'
      exact .inr (.inl hended)
    · intro runId row' hrow' hrunning
      rw [Database.after_ok, hcreated.runs] at hrow'
      split_ifs at hrow' with hid
      · cases hrow'
        cases hrunning
      · exact .inr ⟨row', hrow', hrunning⟩

/-- An operation of a caller that does not end the run. -/
theorem keeps_leaseOp {now : Time} (h : LeaseOp now db db') : Keeps db db' := by
  have hstarted : ∀ (run : AgentRun) (workerId : String) (leaseSeconds : Int),
      (run.claimed workerId leaseSeconds now).startedAt.isSome := by
    intro run workerId leaseSeconds
    simp [AgentRun.claimed]
  cases h with
  | kept => exact .refl db
  | recorded hrun howner hrecords =>
    apply keeps_record hrun
    · rw [hrecords.same]
    · rw [hrecords.same]
  | @opened runId run workerId leaseSeconds db₁ attempts hrun hseconds hlive hclean hclaim hclosed
      hinsert =>
      refine keeps_of_setRun (run.claimed workerId leaseSeconds now) ?_ hrun
        (fun _ => hstarted ..) (fun hterminal => .inl (isTerminal_of_claimed hterminal))
        (fun _ => .inl (hstarted ..)) ?_ ?_
      · rw [hclosed, Database.closeOpenAttempts_runs]
      · rw [hclosed]
        rfl
      · intro id
        rw [hclosed]
        rfl
  | @continued runId run workerId leaseSeconds hrun hseconds howner =>
    exact keeps_updateOpenAttempt _ _ _ hrun (fun _ => hstarted ..)
      (fun hterminal => .inl (isTerminal_of_claimed hterminal)) fun _ => .inl (hstarted ..)
  | @renewed runId run workerId leaseSeconds hrun hseconds howner =>
    exact keeps_updateOpenAttempt (run.renewed leaseSeconds now) _ _ hrun id .inl .inr
  | @released runId run workerId hrun howner =>
    apply keeps_updateOpenAttempt (run.retryReleased now) _ _ hrun id
    · intro hterminal
      cases hterminal
    · intro hrunning
      cases hrunning

theorem keeps_end (status : ExecutionStatus) (now : Time) (preserve : Bool)
    (hrun : db.runs.get runId = some run) (hstarted : run'.startedAt = run.startedAt)
    (hended : run'.status.isTerminal) (hstatus : status ≠ .running)
    (hpreserve : status = .completed ∨ status = .failed → preserve = false)
    (hruns : db'.runs = (db.setRun runId run').runs)
    (hcalls : db'.toolCalls = (((db.setRun runId run').projectInputDeliveryStatus
      run').closeRunningAudits runId status now preserve).toolCalls)
    (hmessages : db'.messages = (((db.setRun runId run').projectInputDeliveryStatus
      run').closeRunningAudits runId status now preserve).messages) : Keeps db db' := by
  have hcomm : (db.setRun runId run').projectInputDeliveryStatus run' =
      (db.projectInputDeliveryStatus run').setRun runId run' := by
    unfold Database.projectInputDeliveryStatus
    split <;> rfl
  have hquiet : Keeps db (db.projectInputDeliveryStatus run') :=
    keeps_of_quiet (.of_runs_eq (Database.projectInputDeliveryStatus_runs ..))
      (toolCalls_projectInputDeliveryStatus ..) (fact_projectInputDeliveryStatus db run')
  rw [hcomm] at hcalls hmessages
  have hrun₀ : (db.projectInputDeliveryStatus run').runs.get runId = some run := by
    rw [Database.projectInputDeliveryStatus_runs, hrun]
  have hruns₀ : db'.runs = ((db.projectInputDeliveryStatus run').setRun runId run').runs := by
    rw [hruns, ← hcomm, Database.projectInputDeliveryStatus_runs]
  refine hquiet.trans (keeps_of_closing now ?_ hstatus hpreserve hcalls fun id => ?_)
  · apply RunsKept.of_setRun hruns₀ hrun₀
    · rw [hstarted]
      exact id
    · exact fun _ => .inl rfl
    · intro hrunning
      rw [hrunning] at hended
      cases hended
  · rw [hmessages]
    rfl

theorem keeps_setTerminalStatus (db : Database) (runId : RunId) (status : RunStatus)
    (errorType errorMessage : Option String) (tokenUsage : Option JsonObject)
    (workerId : Option String) (now : Time) :
    Keeps db (db.after
      (setTerminalStatus db runId status errorType errorMessage tokenUsage workerId now)) := by
  unfold setTerminalStatus
  split_ifs with hstatus
  · exact .refl db
  · cases hrun : db.runs.get runId with
    | none => exact .refl db
    | some run =>
      simp only
      split_ifs with hdone hleftover hguard houtput
      · exact keeps_record hrun rfl rfl
      · exact .refl db
      · exact .refl db
      · exact .refl db
      · have hattempt := updateOpenAttempt_messages
          (((db.setRun runId (run.terminated status errorType errorMessage tokenUsage
            now)).projectInputDeliveryStatus (run.terminated status errorType errorMessage
              tokenUsage now)).closeRunningAudits runId (auditStatus status) now
                (status == .interrupted)) runId workerId
          fun a => a.finished status.attemptOutcome errorType errorMessage now
        refine keeps_end (run.terminated status errorType errorMessage tokenUsage now)
          (auditStatus status) now (status == .interrupted) hrun rfl ?_ ?_ ?_ ?_ hattempt.2
          hattempt.1
        · show status.isTerminal
          simpa using hstatus
        · cases status <;> decide
        · cases status <;> decide
        · rw [Database.after_ok, Database.finishOpenAttempt, Database.updateOpenAttempt_runs,
            Database.closeRunningAudits_runs, Database.projectInputDeliveryStatus_runs]

theorem keeps_closeChild {childId : RunId} {child : AgentRun}
    (hchild : db.runs.get childId = some child) (now : Time) :
    Keeps db (closeChild db childId child now) := by
  unfold closeChild
  split_ifs with hfresh
  · have hnever : child.startedAt = none := by
      simp only [AgentRun.notStarted, Bool.and_eq_true] at hfresh
      simpa using hfresh.2
    apply keeps_of_setRun (child.treeCancelled now) _ hchild id (fun _ => .inr hnever)
    · intro hrunning
      cases hrunning
    · exact toolCalls_projectInputDeliveryStatus ..
    · intro id
      exact fact_projectInputDeliveryStatus ..
    · exact Database.projectInputDeliveryStatus_runs ..
  · apply keeps_of_setRun (child.treeCancelAsked now) rfl hchild id
    · intro hterminal
      cases hterminal
    · intro hrunning
      cases hrunning
    · rfl
    · intro id
      rfl

theorem keeps_requestCancelLocked (hrun : db.runs.get runId = some run) (now : Time) :
    Keeps db (requestCancelLocked db runId run now) := by
  unfold requestCancelLocked
  split_ifs with hdone hfresh
  · exact .refl db
  · have hnever : run.startedAt = none := by
      simp only [AgentRun.notStarted, Bool.and_eq_true] at hfresh
      simpa using hfresh.2
    apply keeps_of_setRun (run.cancelledBeforeStart now) _ hrun id (fun _ => .inr hnever)
    · intro hrunning
      cases hrunning
    · exact toolCalls_projectInputDeliveryStatus ..
    · intro id
      exact fact_projectInputDeliveryStatus ..
    · exact Database.projectInputDeliveryStatus_runs ..
  · apply keeps_of_setRun (run.cancelAsked now) rfl hrun id
    · intro hterminal
      cases hterminal
    · intro hrunning
      cases hrunning
    · rfl
    · intro id
      rfl

theorem keeps_leaseLostWrite (hrun : db.runs.get runId = some run) (now : Time) :
    Keeps db (leaseLostWrite db runId run now) := by
  refine keeps_end (run.leaseLost now) .abandoned now false hrun rfl rfl (by decide)
    (by decide) ?_ ?_ ?_
  rotate_left
  · rfl
  · rfl
  rw [leaseLostWrite, Database.closeOpenAttempts_runs, Database.closeRunningAudits_runs,
    Database.projectInputDeliveryStatus_runs]

theorem closingRel_keeps : ClosingRel Keeps where
  refl := .refl
  trans := .trans
  child hchild _ now := keeps_closeChild hchild now
  locked := keeps_requestCancelLocked
  leaseLost hrun _ now := keeps_leaseLostWrite hrun now

theorem keeps_migrateVisit (now : Time) {e : RunId × AgentRun}
    (hrun : db.runs.get e.1 = some e.2) : Keeps db (migrateVisit now db e) := by
  refine keeps_end (e.2.storageMigrated now) .abandoned now false hrun rfl rfl (by decide)
    (by decide) ?_ ?_ ?_
  rotate_left
  · rfl
  · rfl
  rw [migrateVisit, Database.closeOpenAttempts_runs, Database.closeRunningAudits_runs,
    Database.projectInputDeliveryStatus_runs]

theorem keeps_repository (db : Database) (now : Time) {op : Op} (hop : isRepository op) :
    Keeps db (AgentRunRepository.step db ⟨now, op⟩) := by
  by_cases howner : op.isOwner
  · rcases owner_cases db ⟨now, op⟩ howner with hlease |
      ⟨runId, status, errorType, errorMessage, usage, w, hterminal⟩
    · exact keeps_leaseOp hlease
    · cases hterminal
      exact keeps_setTerminalStatus db runId status errorType errorMessage usage w now
  · cases op with
    | createRun args => exact keeps_createRun db args now
    | requestCancelExecutionTree runId uid cascadeDescendants treeNow =>
      exact closingRel_keeps.requestCancel db runId uid cascadeDescendants now treeNow
    | cancelActiveExecutionTreeDescendants rootId root =>
      exact closingRel_keeps.cancelDescendants db rootId root now
    | reconcileExpiredLeases scan treeNow =>
      exact closingRel_keeps.reconcile db scan now treeNow
    | failNonterminalForStorageMigration =>
      exact failNonterminalForStorageMigration_rel .refl .trans now
        (fun hrun _ => keeps_migrateVisit now hrun) db
    | others tables => cases hop
    | _ => exact absurd rfl howner

end Repository

/-! ## The audit repositories -/

variable {α : Type}

theorem mem_of_scalarOneOrNone {rows : List α} {a : α}
    (h : scalarOneOrNone rows = .ok (some a)) : a ∈ rows := by
  unfold scalarOneOrNone at h
  split at h
  · cases h
  · cases h
    exact List.mem_singleton_self a
  · cases h

theorem lockRun_eq_ok {caller : AuditCaller} {now : Time} (h : caller.lockRun db now = .ok run) :
    db.runs.get caller.runId = some run ∧ run.status = .running := by
  unfold AuditCaller.lockRun at h
  split at h
  · cases h
  · cases h
  · rename_i row hlock
    cases h
    unfold AgentRunRepository.lockOutputPersistence at hlock
    split_ifs at hlock
    cases hrow : db.runs.get caller.runId with
    | none =>
      rw [hrow] at hlock
      cases hlock
    | some stored =>
      rw [hrow] at hlock
      simp only [AgentRunRepository.requireLeaseOwner] at hlock
      by_cases howner : stored.runningOwner caller.workerId now = true
      · split_ifs at hlock
        cases hlock
        refine ⟨rfl, ?_⟩
        simp only [AgentRun.runningOwner, AgentRun.ownedBy, Bool.and_eq_true] at howner
        simpa using howner.1.1
      · rw [if_neg howner] at hlock
        cases hlock

theorem requireSameOwner_eq_ok {requestId : String}
    {role : MessageRole} {messageType error : String}
    (h : requireSameOwner m run requestId role messageType error = .ok ()) :
    m.role = role ∧ m.messageType = messageType := by
  unfold requireSameOwner at h
  split_ifs at h with hforeign
  push Not at hforeign
  exact hforeign.2.2

variable {messageId : Nat}

theorem insertMessage_eq_ok (h : db.insertMessage messageId m = .ok db') :
    db.operationTaken m = false ∧ db.messages.get messageId = none ∧
      (∀ id, db'.messages.get id = if id = messageId then some m else db.messages.get id) ∧
      db'.runs = db.runs ∧ db'.toolCalls = db.toolCalls := by
  unfold Database.insertMessage at h
  split_ifs at h with htaken
  split at h
  · cases h
  · rename_i messages hinsert
    cases h
    obtain ⟨hfresh, hget⟩ := Table.get_of_insert hinsert
    exact ⟨by simpa using htaken, hfresh, hget, rfl, rfl⟩

theorem not_taken (h : db.operationTaken m = false)
    (hrun : m.runId.isSome) (hoperation : m.operationId.isSome) {id : Nat} {n : Message}
    (hn : db.messages.get id = some n) :
    ¬ (n.runId = m.runId ∧ n.operationId = m.operationId ∧ n.role = m.role) := by
  rintro ⟨hsameRun, hsameOperation, hsameRole⟩
  have hmem := (db.messages.mem_rows_iff id n).mpr hn
  simp only [Database.operationTaken, hrun, hoperation, Bool.and_self, Bool.true_and,
    List.any_eq_false] at h
  have hdiffers := h (id, n) hmem
  simp [hsameRun, hsameOperation, hsameRole] at hdiffers

/-- What a new audit looks like: it is open, has an operation of its running run, and a tool
audit names its compatibility row. -/
structure Opens (db db' : Database) (row : Message) : Prop where
  status : row.executionStatus = some .running
  run : ∃ runId run, row.runId = some runId ∧ db.runs.get runId = some run ∧
    run.status = .running
  operation : row.operationId.isSome
  kind : row.messageType = modelAuditMessageType ∧ row.role = .assistant ∨
    row.messageType = toolAuditMessageType ∧ row.role = .tool ∧
      ∃ callId call, row.metadata.compatibilityToolCallId = some callId ∧
        db'.toolCalls.get callId = some call

variable {row : Message}

/-- Opening one audit. -/
theorem keeps_insert (hopens : Opens db db' row) (hruns : db'.runs = db.runs)
    (hcalls : CallsKept db db')
    (hfresh : db.messages.get messageId = none)
    (hget : ∀ id, db'.messages.get id = if id = messageId then some row else db.messages.get id)
    (htaken : db.operationTaken row = false) : Keeps db db' := by
  intro hinv
  obtain ⟨runId, run, hrunId, hrun, hrunning⟩ := hopens.run
  have hrunSome : row.runId.isSome := by
    rw [hrunId]
    rfl
  have hnot : ∀ {id n}, db.messages.get id = some n →
      ¬ (n.runId = row.runId ∧ n.operationId = row.operationId ∧ n.role = row.role) :=
    not_taken htaken hrunSome hopens.operation
  refine ⟨?_, ?_⟩
  · constructor
    · intro id m hm hopen
      rw [hget] at hm
      rw [hruns]
      split_ifs at hm
      · cases hm
        refine ⟨?_, runId, run, hrunId, hrun, hinv.started hrun hrunning, by rw [hrunning]; rfl⟩
        rcases hopens.kind with ⟨htype, -⟩ | ⟨htype, -⟩
        · rw [htype]
          decide
        · rw [htype]
          decide
      · exact hinv.open_run hm hopen
    · intro j row' hrow' hstatus
      rw [hruns] at hrow'
      exact hinv.started hrow' hstatus
    · intro id m hm htype
      rw [hget] at hm
      split_ifs at hm
      · cases hm
        rcases hopens.kind with ⟨-, hrole⟩ | ⟨hother, -⟩
        · exact ⟨hrole, hopens.operation, hrunSome⟩
        · rw [htype] at hother
          exact absurd hother (by decide)
      · exact hinv.model hm htype
    · intro id m hm htype
      rw [hget] at hm
      split_ifs at hm
      · cases hm
        rcases hopens.kind with ⟨hother, -⟩ | ⟨-, hrole, -⟩
        · rw [htype] at hother
          exact absurd hother (by decide)
        · exact ⟨hrole, hopens.operation, hrunSome⟩
      · exact hinv.tool hm htype
    · intro i j m n hm hn hmRun hmOperation hsameRun hsameOperation hsameRole
      rw [hget] at hm hn
      by_cases hi : i = messageId
      · by_cases hj : j = messageId
        · exact hi.trans hj.symm
        · rw [if_pos hi] at hm
          rw [if_neg hj] at hn
          cases hm
          exact absurd ⟨hsameRun.symm, hsameOperation.symm, hsameRole.symm⟩ (hnot hn)
      · rw [if_neg hi] at hm
        by_cases hj : j = messageId
        · rw [if_pos hj] at hn
          cases hn
          exact absurd ⟨hsameRun, hsameOperation, hsameRole⟩ (hnot hm)
        · rw [if_neg hj] at hn
          exact hinv.unique hm hn hmRun hmOperation hsameRun hsameOperation hsameRole
    · intro id m hm htype
      rw [hget] at hm
      split_ifs at hm
      · cases hm
        rcases hopens.kind with ⟨hother, -⟩ | ⟨-, -, callId, call, hcallId, hcall⟩
        · rw [htype] at hother
          exact absurd hother (by decide)
        · refine ⟨callId, call, hcallId, hcall, ?_⟩
          intro hended
          rw [hopens.status] at hended
          rcases hended with hended | hended <;> cases hended
      · obtain ⟨callId, call, hcallId, hcall, hdone⟩ := hinv.calls hm htype
        obtain ⟨call', hcall', hkept⟩ := hcalls callId call hcall
        exact ⟨callId, call', hcallId, hcall', fun hended => hkept (hdone hended)⟩
  · intro id m hm hclosed
    refine ⟨m, ?_, rfl⟩
    rw [hget, if_neg, hm]
    rintro rfl
    rw [hfresh] at hm
    cases hm

variable (f : Message → Message)

theorem keeps_insert_modify (hinsert : db.insertMessage messageId row = .ok db₁)
    (hruns : db₂.runs = db₁.runs) (hmessages : db₂.messages = db₁.messages)
    (hcalls : CallsKept db₁ db₂) (hkey : auditKey (f row) = auditKey row)
    (hopens : Opens db db₂ (f row)) :
    Keeps db { db₂ with messages := db₂.messages.modify messageId f } := by
  obtain ⟨htaken, hfresh, hget, hruns₁, hcalls₁⟩ := insertMessage_eq_ok hinsert
  have hcalls' : CallsKept db { db₂ with messages := db₂.messages.modify messageId f } := by
    intro j before hbefore
    rw [← hcalls₁] at hbefore
    exact hcalls j before hbefore
  have hopens' : Opens db { db₂ with messages := db₂.messages.modify messageId f } (f row) :=
    ⟨hopens.status, hopens.run, hopens.operation, hopens.kind⟩
  apply keeps_insert hopens' (hruns.trans hruns₁) hcalls' hfresh
  · intro id
    rw [Table.get_modify, hmessages, hget]
    by_cases hid : id = messageId
    · rw [if_pos hid, if_pos hid, if_pos hid]
      rfl
    · rw [if_neg hid, if_neg hid, if_neg hid]
  · have hrole : (f row).role = row.role := congrArg AuditKey.role hkey
    have hoperation : (f row).operationId = row.operationId := congrArg AuditKey.operationId hkey
    have hrunId : (f row).runId = row.runId := congrArg AuditKey.runId hkey
    unfold Database.operationTaken at htaken ⊢
    rw [hrole, hoperation, hrunId]
    exact htaken

theorem keeps_modify (hm : db.messages.get messageId = some m)
    (hopen : m.executionStatus = some .running)
    (hkey : auditKey (f m) = auditKey m)
    (hcompatibility : m.messageType = toolAuditMessageType →
      (f m).metadata.compatibilityToolCallId = m.metadata.compatibilityToolCallId)
    (hruns : db'.runs = db.runs) (hcalls : CallsKept db db')
    (hmessages : db'.messages = db.messages.modify messageId f)
    (hresult : m.messageType = toolAuditMessageType →
      (f m).executionStatus = some .completed ∨ (f m).executionStatus = some .failed →
      ∀ callId call, m.metadata.compatibilityToolCallId = some callId →
        db'.toolCalls.get callId = some call → call.status ≠ .pending) : Keeps db db' := by
  suffices h : Rewrites (fun _ => False) db db' from h.keeps
  refine ⟨.of_runs_eq hruns, hcalls, ?_, ?_⟩
  · intro id n' hn'
    rw [hmessages, Table.get_modify] at hn'
    split_ifs at hn' with hid
    · subst hid
      rw [hm] at hn'
      cases hn'
      exact ⟨m, hm, hkey, hcompatibility, .inr hopen, fun _ => ⟨hopen, fun _ _ _ h => h⟩,
        fun _ => hresult⟩
    · refine ⟨n', hn', rfl, fun _ => rfl, .inl rfl, fun hrunning => ⟨hrunning, fun _ _ _ h => h⟩,
        ?_⟩
      intro hrunning _ hended
      rw [hrunning] at hended
      rcases hended with hended | hended <;> cases hended
  · intro id n hn
    rw [hmessages, Table.get_modify]
    split_ifs with hid
    · rw [hn]
      exact ⟨f n, rfl⟩
    · exact ⟨n, hn⟩

theorem keeps_after {t : Transaction String α}
    (h : ∀ a db', t = .ok (a, db') → Keeps db db') : Keeps db (db.after t) := by
  cases t with
  | error e => exact .refl db
  | ok result => exact h result.1 result.2 rfl

section Model

open ModelMessageAuditRepository

theorem keeps_modelStart (db : Database) (caller : AuditCaller) (operationId : String)
    (sequence : Int) (startedAt : Time) (metadata : AuditMetadata) (messageId : Nat) (now : Time) :
    Keeps db (db.after
      (start db caller operationId sequence startedAt metadata messageId now)) := by
  apply keeps_after
  intro result db' h
  unfold start at h
  simp only at h
  split_ifs at h
  split at h
  · cases h
  · rename_i run hlock
    split at h
    · cases h
    · split at h
      · cases h
      · split_ifs at h
        cases h
        exact .refl db
    · split at h
      · cases h
      · rename_i db₁ hinsert
        cases h
        obtain ⟨hrun, hrunning⟩ := lockRun_eq_ok hlock
        obtain ⟨htaken, hfresh, hget, hruns, hcalls⟩ := insertMessage_eq_ok hinsert
        exact keeps_insert
          ⟨rfl, ⟨caller.runId, run, rfl, hrun, hrunning⟩, rfl, .inl ⟨rfl, rfl⟩⟩
          hruns (.of_eq hcalls) hfresh hget htaken

theorem keeps_modelFinish (db : Database) (caller : AuditCaller) (operationId content : String)
    (finishedAt : Time) (durationMs : Option Int) (usage : Option JsonObject)
    (metadata : AuditMetadata) (now : Time) :
    Keeps db (db.after
      (finish db caller operationId content finishedAt durationMs usage metadata now)) := by
  apply keeps_after
  intro result db' h
  unfold finish at h
  simp only at h
  split_ifs at h
  split at h
  · cases h
  · split at h
    · cases h
    · cases h
    · rename_i messageId m hfound
      split at h
      · cases h
      · rename_i howner
        split_ifs at h with hcompleted hdifferent hnotRunning
        · cases h
          exact .refl db
        · cases h
          have hm : db.messages.get result = some m := by
            have hmem := List.mem_of_mem_filter (mem_of_scalarOneOrNone hfound)
            exact (db.messages.mem_rows_iff result m).mp hmem
          have htype : m.messageType ≠ toolAuditMessageType := by
            rw [(requireSameOwner_eq_ok howner).2]
            decide
          exact keeps_modify
            (fun m => finishedRow m content finishedAt durationMs usage metadata) hm
            (by simpa using hnotRunning) rfl (fun htool => absurd htool htype) rfl (.of_eq rfl)
            rfl (fun htool => absurd htool htype)

end Model

section Tool

open ToolMessageAuditRepository

theorem openToolCall_eq_ok {db db' : Database} {sourceId : Nat} {operationId toolName : String}
    {toolInput : JsonObject} {callId id : Nat}
    (h : openToolCall db sourceId operationId toolName toolInput callId = .ok (id, db')) :
    db'.runs = db.runs ∧ db'.messages = db.messages ∧ CallsKept db db' ∧
      ∃ call, db'.toolCalls.get id = some call := by
  unfold openToolCall at h
  split at h
  · cases h
  · split at h
    · cases h
    · rename_i toolCalls hinsert
      cases h
      obtain ⟨hfresh, hget⟩ := Table.get_of_insert hinsert
      refine ⟨rfl, rfl, ?_, ?_⟩
      · intro j call hcall
        refine ⟨call, ?_, fun hdone => hdone⟩
        rw [hget, if_neg, hcall]
        rintro rfl
        rw [hfresh] at hcall
        cases hcall
      · rw [hget, if_pos rfl]
        exact ⟨_, rfl⟩
  · rename_i callId' call hfound
    split_ifs at h
    cases h
    have hcall : db.toolCalls.get id = some call := by
      have hmem := List.mem_of_mem_filter (mem_of_scalarOneOrNone hfound)
      exact (db.toolCalls.mem_rows_iff id call).mp hmem
    refine ⟨rfl, rfl, ?_, ?_⟩
    · intro j call' hcall'
      simp only [Table.get_modify]
      split_ifs
      · rw [hcall']
        exact ⟨_, rfl, fun hdone => hdone⟩
      · exact ⟨call', hcall', fun hdone => hdone⟩
    · simp only [Table.get_modify_self, hcall]
      exact ⟨_, rfl⟩

theorem keeps_toolStart (db : Database) (caller : AuditCaller) (toolCallId toolName : String)
    (toolInput : JsonObject) (sequence : Int) (startedAt : Time) (metadata : AuditMetadata)
    (messageId callId : Nat) (now : Time) :
    Keeps db (db.after (start db caller toolCallId toolName toolInput sequence startedAt metadata
      messageId callId now)) := by
  apply keeps_after
  intro result db' h
  unfold start at h
  simp only at h
  split_ifs at h
  split at h
  · cases h
  · rename_i run hlock
    split at h
    · cases h
    · split at h
      · cases h
      · split at h
        · cases h
        · cases h
          exact .refl db
    · split at h
      · cases h
      · cases h
      · split at h
        · cases h
        · rename_i db₁ hinsert
          split at h
          · cases h
          · rename_i compatibilityId db₂ hopen
            cases h
            obtain ⟨hrun, hrunning⟩ := lockRun_eq_ok hlock
            obtain ⟨hruns, hmessages, hcalls, call, hcall⟩ := openToolCall_eq_ok hopen
            apply keeps_insert_modify _ hinsert hruns hmessages hcalls
            · rfl
            · exact ⟨rfl, ⟨caller.runId, run, rfl, hrun, hrunning⟩, rfl,
                .inr ⟨rfl, rfl, compatibilityId, call, rfl, hcall⟩⟩

theorem finishedCall_status (call : ToolCall) (status : ToolEnd) (result : ToolResult) :
    (finishedCall call status result).status ≠ .pending := by
  cases status with
  | completed => simp [finishedCall, ToolEnd.toolCallStatus]
  | failed => simp [finishedCall, ToolEnd.toolCallStatus]

theorem callsKept_finished (db : Database) (callId : Nat) (status : ToolEnd)
    (result : ToolResult) {messages : Table Nat Message} :
    CallsKept db { db with
      messages := messages
      toolCalls := db.toolCalls.modify callId fun call => finishedCall call status result } := by
  intro j call hcall
  simp only [Table.get_modify]
  split_ifs
  · rw [hcall]
    exact ⟨_, rfl, fun _ => finishedCall_status call status result⟩
  · exact ⟨call, hcall, fun hdone => hdone⟩

theorem keeps_toolFinish (db : Database) (caller : AuditCaller) (toolCallId : String)
    (status : ToolEnd) (result : ToolResult) (now : Time) :
    Keeps db (db.after (finish db caller toolCallId status result now)) := by
  apply keeps_after
  intro answer db' h
  unfold finish at h
  simp only at h
  split_ifs at h
  split at h
  · cases h
  · split at h
    · cases h
    · cases h
    · rename_i id m hfound
      split at h
      · cases h
      · split_ifs at h with hended hdifferent hnotRunning
        · cases h
          exact .refl db
        · split at h
          · cases h
          · rename_i callId hcompatibility
            cases h
            have hm : db.messages.get answer = some m := by
              have hmem := List.mem_of_mem_filter (mem_of_scalarOneOrNone hfound)
              exact (db.messages.mem_rows_iff answer m).mp hmem
            have hnames : m.metadata.compatibilityToolCallId = some callId := by
              unfold requireCompatibilityToolCall at hcompatibility
              split at hcompatibility
              · cases hcompatibility
              · rename_i named hnamed
                split at hcompatibility
                · cases hcompatibility
                · split_ifs at hcompatibility
                  cases hcompatibility
                  exact hnamed
            apply keeps_modify (fun m => finishedRow m status result) hm
              (by simpa using hnotRunning)
            · rfl
            · exact fun _ => rfl
            · rfl
            · exact callsKept_finished db callId status result
            · rfl
            · intro _ _ named call hnamed hcall
              rw [hnames] at hnamed
              cases hnamed
              simp only [Table.get_modify_self] at hcall
              obtain ⟨before, -, hbefore⟩ := Option.map_eq_some_iff.mp hcall
              rw [← hbefore]
              exact finishedCall_status before status result

theorem keeps_observeError (db : Database) (caller : AuditCaller)
    (toolCallId errorMessage : String) (finishedAt : Time) (durationMs : Option Int)
    (finishedSequence : Int) (now : Time) :
    Keeps db (db.after (observeError db caller toolCallId errorMessage finishedAt durationMs
      finishedSequence now)) := by
  apply keeps_after
  intro answer db' h
  unfold observeError at h
  simp only at h
  split_ifs at h
  split at h
  · cases h
  · split at h
    · cases h
    · cases h
    · rename_i messageId m hfound
      split at h
      · cases h
      · split_ifs at h with hnotRunning
        · cases h
          exact .refl db
        · cases h
          have hm : db.messages.get answer = some m := by
            have hmem := List.mem_of_mem_filter (mem_of_scalarOneOrNone hfound)
            exact (db.messages.mem_rows_iff answer m).mp hmem
          have hopen : m.executionStatus = some .running := by simpa using hnotRunning
          apply keeps_modify
            (fun m => observedRow m errorMessage finishedAt durationMs finishedSequence) hm hopen
          · rfl
          · exact fun _ => rfl
          · rfl
          · exact .of_eq rfl
          · rfl
          · intro _ hended
            simp only [observedRow, hopen] at hended
            rcases hended with hended | hended <;> cases hended

end Tool

/-! ## Runs of the system -/

theorem step_audits (db : Database) (e : AuditEvent) : Keeps db (step db e) := by
  cases hop : e.op with
  | repository op own =>
    simp only [step, hop]
    exact keeps_repository db e.now own
  | modelStart caller operationId sequence startedAt metadata messageId =>
    simp only [step, hop]
    exact keeps_modelStart db caller operationId sequence startedAt metadata messageId e.now
  | modelFinish caller operationId content finishedAt durationMs usage metadata =>
    simp only [step, hop]
    exact keeps_modelFinish db caller operationId content finishedAt durationMs usage metadata
      e.now
  | toolStart caller toolCallId toolName toolInput sequence startedAt metadata messageId callId =>
    simp only [step, hop]
    exact keeps_toolStart db caller toolCallId toolName toolInput sequence startedAt metadata
      messageId callId e.now
  | toolComplete caller toolCallId output content finishedAt durationMs finishedSequence =>
    simp only [step, hop]
    exact keeps_toolFinish db caller toolCallId .completed _ e.now
  | toolFail caller toolCallId errorMessage output content finishedAt durationMs
      finishedSequence =>
      simp only [step, hop]
      exact keeps_toolFinish db caller toolCallId .failed _ e.now
  | toolObserveError caller toolCallId errorMessage finishedAt durationMs finishedSequence =>
    simp only [step, hop]
    exact keeps_observeError db caller toolCallId errorMessage finishedAt durationMs
      finishedSequence e.now

theorem exec_audits (db : Database) (events : List AuditEvent) :
    Keeps db (Transition.exec step db events) :=
  Transition.exec_rel step (R := Keeps) Keeps.refl (fun h₁ h₂ => h₁.trans h₂) step_audits db
    events

/-- A database in which no run was created and no audit was opened. -/
structure Initial (db : Database) : Prop where
  runs : ∀ runId, db.runs.get runId = none
  messages : ∀ {id m}, db.messages.get id = some m → m.executionStatus = none ∧
    m.operationId = none ∧ m.messageType ∉ auditMessageTypes

theorem Initial.auditInv (h : Initial db) : AuditInv db where
  open_run := by
    intro id m hm hopen
    rw [(h.messages hm).1] at hopen
    cases hopen
  started := by
    intro runId run hrun
    rw [h.runs] at hrun
    cases hrun
  model := by
    intro id m hm htype
    have haudit := (h.messages hm).2.2
    rw [htype] at haudit
    exact absurd (by decide) haudit
  tool := by
    intro id m hm htype
    have haudit := (h.messages hm).2.2
    rw [htype] at haudit
    exact absurd (by decide) haudit
  unique := by
    intro i j m n hm _ _ hoperation
    rw [(h.messages hm).2.1] at hoperation
    cases hoperation
  calls := by
    intro id m hm htype
    have haudit := (h.messages hm).2.2
    rw [htype] at haudit
    exact absurd (by decide) haudit

/-- In every run of the three repositories: an ended run has no open audit, a closed audit keeps
its status and result, a call has one audit, and a tool call with a result has no pending
compatibility row. -/
theorem audits_closed {db : Database} (hinitial : Initial db) (events : List AuditEvent) :
    let reached := Transition.exec step db events
    (∀ runId run, reached.runs.get runId = some run → run.status.isTerminal →
      ∀ id m, reached.messages.get id = some m → m.runId = some runId →
        m.executionStatus ≠ some .running) ∧
    (∀ id m, reached.messages.get id = some m → IsClosed m → ∀ later : List AuditEvent,
      ∃ m', (Transition.exec step reached later).messages.get id = some m' ∧
        fact m' = fact m) ∧
    (∀ i j m n, reached.messages.get i = some m → reached.messages.get j = some n →
      m.messageType ∈ auditMessageTypes → n.messageType = m.messageType →
      n.runId = m.runId → n.operationId = m.operationId → i = j) ∧
    (∀ id m, reached.messages.get id = some m → m.messageType = toolAuditMessageType →
      m.executionStatus = some .completed ∨ m.executionStatus = some .failed →
      ∃ callId call, m.metadata.compatibilityToolCallId = some callId ∧
        reached.toolCalls.get callId = some call ∧ call.status ≠ .pending) := by
  intro reached
  have hinv : AuditInv reached := (exec_audits db events hinitial.auditInv).1
  refine ⟨?_, ?_, ?_, ?_⟩
  · intro runId run hrun hended id m hm hrunId hopen
    obtain ⟨-, owner, row, howner, hrow, -, hlive⟩ := hinv.open_run hm hopen
    rw [hrunId] at howner
    cases howner
    rw [hrun] at hrow
    cases hrow
    rw [hended] at hlive
    cases hlive
  · intro id m hm hclosed later
    exact (exec_audits reached later hinv).2 id m hm hclosed
  · intro i j m n hm hn haudit htype hrunId hoperation
    have hkinds : m.messageType = modelAuditMessageType ∨
        m.messageType = toolAuditMessageType := by
      simpa [auditMessageTypes] using haudit
    rcases hkinds.symm with hkind | hkind
    · obtain ⟨hrole, hoperationSome, hrunSome⟩ := hinv.tool hm hkind
      obtain ⟨hrole', -⟩ := hinv.tool hn (htype.trans hkind)
      exact hinv.unique hm hn hrunSome hoperationSome hrunId.symm hoperation.symm
        (hrole.trans hrole'.symm)
    · obtain ⟨hrole, hoperationSome, hrunSome⟩ := hinv.model hm hkind
      obtain ⟨hrole', -⟩ := hinv.model hn (htype.trans hkind)
      exact hinv.unique hm hn hrunSome hoperationSome hrunId.symm hoperation.symm
        (hrole.trans hrole'.symm)
  · intro id m hm htype hended
    obtain ⟨callId, call, hcallId, hcall, hdone⟩ := hinv.calls hm htype
    exact ⟨callId, call, hcallId, hcall, hdone hended⟩

theorem initial_empty : Initial .empty where
  runs := fun _ => rfl
  messages := by
    intro id m hm
    cases hm

/-- The caller of the run that fails while its second model call is open. -/
def failedRunCaller : AuditCaller where
  runId := "run"
  requestId := "request"
  threadId := "thread"
  workerId := "worker"

/-- One model call that asks for a tool, the tool call, and a model call that the end of the run
closes; the callback of the last one comes late. -/
def failedRun : List AuditEvent := [
  ⟨0, .repository (.createRun
    { runId := "run"
      conversationThreadId := "thread"
      agentSlug := "agent"
      uid := "user"
      requestId := "request"
      inputPayload := []
      conversationId := some 1 }) rfl⟩,
  ⟨1, .repository (.markRunning "run" "worker" 60) rfl⟩,
  ⟨2, .modelStart failedRunCaller "m1" 0 2 .empty 1⟩,
  ⟨3, .modelFinish failedRunCaller "m1" "" 3 none none
    { AuditMetadata.empty with toolCalls := some ["t1"] }⟩,
  ⟨4, .toolStart failedRunCaller "t1" "search" [] 1 4 .empty 2 1⟩,
  ⟨5, .toolComplete failedRunCaller "t1" none "found" 5 none none⟩,
  ⟨6, .modelStart failedRunCaller "m2" 2 6 .empty 3⟩,
  ⟨7, .repository (.setTerminalStatus "run" .failed none none none (some "worker")) rfl⟩,
  ⟨8, .modelFinish failedRunCaller "m2" "late" 8 none none .empty⟩]

theorem failedRun_closed :
    ((Transition.exec step .empty failedRun).runs.get "run").map (·.status) = some .failed ∧
    (Transition.exec step .empty failedRun).messages.rows.map (·.2.executionStatus) =
      [some .completed, some .completed, some .failed] ∧
    ∀ id m, (Transition.exec step .empty failedRun).messages.get id = some m →
      m.runId = some "run" → m.executionStatus ≠ some .running := by
  have hstatus : ((Transition.exec step .empty failedRun).runs.get "run").map (·.status) =
      some .failed := by
    decide +kernel
  refine ⟨hstatus, by decide +kernel, ?_⟩
  obtain ⟨run, hrun, hfailed⟩ := Option.map_eq_some_iff.mp hstatus
  exact (audits_closed initial_empty failedRun).1 "run" run hrun (by rw [hfailed]; rfl)

end Audit

end Yuanlei
