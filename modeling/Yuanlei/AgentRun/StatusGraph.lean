import Yuanlei.AgentRun.Operations

/-!
# The status graph of an agent run

Every operation of the repository moves the status of every run along one fixed
graph, whatever its arguments, the callers and the clock.  A requested
cancellation is never taken back, and a finished run is frozen.

Main results:

- `step_moves`: one operation moves every status along the graph.
- `status_graph`: the graph, the finality of a cancellation and the
  frozen result of a finished run together.
-/

namespace Yuanlei

open Relation

/-! ## The graph -/

namespace RunStatus

/-- The statuses that an operation may move a run to. -/
def successors : RunStatus → List RunStatus
  | pending => [running, cancelled, cancelRequested, failed]
  | running => [pending, cancelRequested, completed, failed, interrupted]
  | cancelRequested => [cancelled, failed]
  | completed | failed | cancelled | interrupted => []

/-- An operation keeps the status or follows an edge of the graph. -/
def Moves (s s' : RunStatus) : Prop :=
  s' = s ∨ s' ∈ s.successors

instance (s s' : RunStatus) : Decidable (Moves s s') :=
  inferInstanceAs (Decidable (s' = s ∨ s' ∈ s.successors))

/-- The part of the graph that closing writes use; unlike the whole graph it is
closed under composition. -/
def closingSuccessors : RunStatus → List RunStatus
  | pending => [cancelled, cancelRequested, failed]
  | running => [cancelRequested, failed]
  | cancelRequested => [failed]
  | completed | failed | cancelled | interrupted => []

/-- A sequence of closing writes keeps the status or follows one closing edge. -/
def ClosingMoves (s s' : RunStatus) : Prop :=
  s' = s ∨ s' ∈ s.closingSuccessors

variable {s : RunStatus}

theorem ClosingMoves.trans {t u : RunStatus} (h₁ : ClosingMoves s t) (h₂ : ClosingMoves t u) :
    ClosingMoves s u := by
  unfold ClosingMoves at *
  cases s <;> cases t <;> simp [closingSuccessors] at h₁ <;>
    cases u <;> simp_all [closingSuccessors]

theorem ClosingMoves.moves {s' : RunStatus} (h : ClosingMoves s s') : Moves s s' := by
  unfold ClosingMoves at h
  unfold Moves
  cases s <;> simp_all [closingSuccessors, successors] <;> grind

end RunStatus

/-! ## What a write keeps of a row -/

/-- The columns that are fixed when a run is created. -/
structure RunIdentity where
  conversationThreadId : String
  runtimeScopeId : String
  agentSlug : String
  uid : String
  requestId : String
  source : String
  channel : String
  externalId : Option String
  originMetadata : JsonObject
  conversationId : Option Nat
  createdByRunId : Option RunId
  subagentThreadRelationId : Option RelationId
  runType : RunType
  inputMessageId : Option Nat
  inputPayload : JsonObject
  createdAt : Time

namespace AgentRun

/-- The fixed columns of a row. -/
def identity (run : AgentRun) : RunIdentity where
  conversationThreadId := run.conversationThreadId
  runtimeScopeId := run.runtimeScopeId
  agentSlug := run.agentSlug
  uid := run.uid
  requestId := run.requestId
  source := run.source
  channel := run.channel
  externalId := run.externalId
  originMetadata := run.originMetadata
  conversationId := run.conversationId
  createdByRunId := run.createdByRunId
  subagentThreadRelationId := run.subagentThreadRelationId
  runType := run.runType
  inputMessageId := run.inputMessageId
  inputPayload := run.inputPayload
  createdAt := run.createdAt

/-- The rows agree except for the lease columns and the time of the last update. -/
def SameResult (run run' : AgentRun) : Prop :=
  run' = { run with
    workerId := run'.workerId
    heartbeatAt := run'.heartbeatAt
    leaseExpiresAt := run'.leaseExpiresAt
    updatedAt := run'.updatedAt }

variable {run run' run'' : AgentRun}

theorem SameResult.trans (h₁ : run.SameResult run')
    (h₂ : run'.SameResult run'') : run.SameResult run'' := by
  unfold SameResult at *
  rw [h₂, h₁]

theorem SameResult.status (h : run.SameResult run') : run'.status = run.status := by
  rw [h]

/-- What every operation keeps of a run: its identity, a requested cancellation and
the result of a finished run. -/
structure Evolves (run run' : AgentRun) : Prop where
  identity : run'.identity = run.identity
  cancelling : run.status = .cancelRequested →
    run'.status ∈ [RunStatus.cancelRequested, .cancelled, .failed]
  finished : run.status.isTerminal → run.SameResult run'

theorem Evolves.refl (run : AgentRun) : run.Evolves run where
  identity := rfl
  cancelling := fun h => by simp [h]
  finished := fun _ => rfl

theorem Evolves.trans (h₁ : run.Evolves run') (h₂ : run'.Evolves run'') : run.Evolves run'' where
  identity := h₂.identity.trans h₁.identity
  cancelling := by
    intro hstatus
    rcases List.mem_cons.mp (h₁.cancelling hstatus) with hkept | hdone
    · exact h₂.cancelling hkept
    · have hterminal : run'.status.isTerminal := by
        simp only [List.mem_cons, List.not_mem_nil, or_false] at hdone
        rcases hdone with h | h <;> simp [h, RunStatus.isTerminal]
      rw [(h₂.finished hterminal).status]
      exact List.mem_cons_of_mem _ hdone
  finished := by
    intro hterminal
    have hsame := h₁.finished hterminal
    exact hsame.trans (h₂.finished (by rw [hsame.status]; exact hterminal))

/-- A write to a row that keeps its identity and obeys the graph is an evolution. -/
theorem Evolves.of_live (hlive : run.status.isTerminal = false)
    (hidentity : run'.identity = run.identity) (hmoves : run.status.Moves run'.status) :
    run.Evolves run' where
  identity := hidentity
  cancelling := by
    intro hstatus
    unfold RunStatus.Moves at hmoves
    rw [hstatus] at hmoves
    simpa [RunStatus.successors] using hmoves
  finished := fun hterminal => absurd hterminal (by simp [hlive])

end AgentRun

/-! ## Relations between the rows of two views -/

/-- The row of the first view survives and is related to the row of the second. -/
def RowRel (R : AgentRun → AgentRun → Prop) (v v' : RunView) : Prop :=
  ∀ run, v.run = some run → ∃ run', v'.run = some run' ∧ R run run'

variable {v' v : RunView}

theorem rowRel_of_closing {R : AgentRun → AgentRun → Prop} (hrefl : ∀ run, R run run)
    (htrans : ∀ {a b c}, R a b → R b c → R a c)
    (hwrite : ∀ {v v'}, ClosingWrite v v' → RowRel R v v') (h : ReflTransGen ClosingWrite v v') : RowRel R v v' := by
  induction h with
  | refl => exact fun run hrun => ⟨run, hrun, hrefl run⟩
  | tail _ hlast ih =>
    intro run hrun
    obtain ⟨run₁, hrun₁, h₁⟩ := ih run hrun
    obtain ⟨run₂, hrun₂, h₂⟩ := hwrite hlast run₁ hrun₁
    exact ⟨run₂, hrun₂, htrans h₁ h₂⟩

variable {run : AgentRun}

theorem AgentRun.notStarted_status (h : run.notStarted) :
    run.status = .pending := by
  simp only [AgentRun.notStarted, Bool.and_eq_true, beq_iff_eq] at h
  exact h.1.1

theorem closingWrite_spec {ledger : Ledger} (h : ClosingWrite ⟨some run, ledger⟩ v') :
    ∃ run', v'.run = some run' ∧ run.status.isTerminal = false ∧
      run'.identity = run.identity ∧ run.status.ClosingMoves run'.status := by
  -- From a live row every closing write leads to the status it names.
  have htarget : run.status.isTerminal = false →
      run.status.ClosingMoves .cancelRequested ∧ run.status.ClosingMoves .failed := by
    intro hlive
    unfold RunStatus.ClosingMoves
    cases hstatus : run.status <;>
      simp_all [RunStatus.isTerminal, RunStatus.closingSuccessors]
  have hfresh : run.notStarted →
      run.status.isTerminal = false ∧ run.status.ClosingMoves .cancelled := by
    intro hnot
    have hpending := AgentRun.notStarted_status hnot
    simp [hpending, RunStatus.isTerminal, RunStatus.ClosingMoves, RunStatus.closingSuccessors]
  cases h with
  | cancelledBeforeStart hnot => exact ⟨_, rfl, (hfresh hnot).1, rfl, (hfresh hnot).2⟩
  | cancelAsked hlive => exact ⟨_, rfl, hlive, rfl, (htarget hlive).1⟩
  | treeCancelled hnot => exact ⟨_, rfl, (hfresh hnot).1, rfl, (hfresh hnot).2⟩
  | treeCancelAsked hlive => exact ⟨_, rfl, hlive, rfl, (htarget hlive).1⟩
  | leaseLost hlive => exact ⟨_, rfl, hlive, rfl, (htarget hlive).2⟩
  | storageMigrated hlive => exact ⟨_, rfl, hlive, rfl, (htarget hlive).2⟩

theorem closingWrite_closingMoves (h : ClosingWrite v v') :
    RowRel (fun run run' => run.status.ClosingMoves run'.status) v v' := by
  intro run hrun
  obtain ⟨vrun, ledger⟩ := v
  obtain rfl : vrun = some run := hrun
  obtain ⟨run', hrun', -, -, hmoves⟩ := closingWrite_spec h
  exact ⟨run', hrun', hmoves⟩

theorem closingWrite_evolves (h : ClosingWrite v v') :
    RowRel AgentRun.Evolves v v' := by
  intro run hrun
  obtain ⟨vrun, ledger⟩ := v
  obtain rfl : vrun = some run := hrun
  obtain ⟨run', hrun', hlive, hidentity, hmoves⟩ := closingWrite_spec h
  exact ⟨run', hrun', .of_live hlive hidentity hmoves.moves⟩

namespace AgentRunRepository

/-! ## Owner writes -/

variable {run : AgentRun} {workerId : String} {now : Time}

theorem leasedOwner_status (h : run.leasedOwner workerId now) :
    run.status = .running ∨ run.status = .cancelRequested := by
  simp only [AgentRun.leasedOwner, AgentRun.ownedBy, Bool.and_eq_true] at h
  have hleased := h.1.1
  cases hstatus : run.status <;> simp_all [RunStatus.isLeased]

theorem runningOwner_status (h : run.runningOwner workerId now) : run.status = .running := by
  simp only [AgentRun.runningOwner, AgentRun.ownedBy, Bool.and_eq_true, beq_iff_eq] at h
  exact h.1.1

section

variable (h : run.leasedOwner workerId now)
include h

theorem leasedOwner_live : run.status.isTerminal = false := by
  rcases leasedOwner_status h with hs | hs <;> simp [hs, RunStatus.isTerminal]

theorem leasedOwner_worker : run.workerId = some workerId := by
  simp only [AgentRun.leasedOwner, AgentRun.ownedBy, Bool.and_eq_true, beq_iff_eq] at h
  exact h.1.2

theorem leasedOwner_leaseLive : leaseLive run.leaseExpiresAt now := by
  simp only [AgentRun.leasedOwner, AgentRun.ownedBy, Bool.and_eq_true] at h
  exact h.2

end

theorem terminalGuard_moves {status : RunStatus} {workerId : Option String}
    (hterminal : status.isTerminal) (hguard : terminalGuard run status workerId now) :
    run.status.isTerminal = false ∧ run.status.Moves status := by
  unfold terminalGuard at hguard
  unfold RunStatus.Moves
  cases hstatus : run.status <;> cases status <;>
    simp_all [RunStatus.isTerminal, RunStatus.successors]

variable {v' : RunView} {ledger : Ledger}

/-- An owner write either clears the lease of a finished row, or acts on a live row,
keeps its identity and follows the graph. -/
theorem ownerWrite_spec (h : OwnerWrite now ⟨some run, ledger⟩ v') :
    ∃ run', v'.run = some run' ∧ run'.identity = run.identity ∧ run.status.Moves run'.status ∧
      (run.status.isTerminal → run.SameResult run') := by
  cases h with
  | opened hseconds hlive hclean hclaim hmax =>
    refine ⟨_, rfl, rfl, ?_, fun hterminal => absurd hterminal (by simp [hlive])⟩
    by_cases hpending : run.status = .pending
    · simp [AgentRun.claimed, hpending, RunStatus.Moves, RunStatus.successors]
    · simp [AgentRun.claimed, hpending, RunStatus.Moves]
  | continued hseconds howner hledger =>
    have hlive := leasedOwner_live howner
    refine ⟨_, rfl, rfl, .inl ?_, fun hterminal => absurd hterminal (by simp [hlive])⟩
    rcases leasedOwner_status howner with hs | hs <;> simp [AgentRun.claimed, hs]
  | renewed hseconds howner hledger =>
    have hlive := leasedOwner_live howner
    exact ⟨_, rfl, rfl, .inl rfl, fun hterminal => absurd hterminal (by simp [hlive])⟩
  | released howner hledger =>
    have hstatus := runningOwner_status howner
    refine ⟨_, rfl, rfl, ?_, fun hterminal => absurd hterminal (by
      simp [hstatus, RunStatus.isTerminal])⟩
    simp [AgentRun.retryReleased, hstatus, RunStatus.Moves, RunStatus.successors]
  | terminated hterminal hguard hledger =>
    obtain ⟨hlive, hmoves⟩ := terminalGuard_moves hterminal hguard
    exact ⟨_, rfl, rfl, hmoves, fun hterminal => absurd hterminal (by simp [hlive])⟩
  | cleared hterminal hleftover => exact ⟨_, rfl, rfl, .inl rfl, fun _ => rfl⟩
  | recorded howner hrecords =>
    have hlive := leasedOwner_live howner
    refine ⟨_, rfl, ?_, .inl ?_, fun hterminal => absurd hterminal (by simp [hlive])⟩
    · rw [hrecords.same]
      rfl
    · rw [hrecords.same]

variable {v : RunView}

theorem ownerWrite_evolves (h : OwnerWrite now v v') : RowRel AgentRun.Evolves v v' := by
  intro run hrun
  obtain ⟨vrun, ledger⟩ := v
  obtain rfl : vrun = some run := hrun
  obtain ⟨run', hrun', hidentity, hmoves, hfrozen⟩ := ownerWrite_spec h
  refine ⟨run', hrun', ?_⟩
  cases hlive : run.status.isTerminal with
  | false => exact .of_live hlive hidentity hmoves
  | true =>
    have hsame := hfrozen hlive
    refine ⟨hidentity, fun hstatus => ?_, hfrozen⟩
    rw [hstatus] at hlive
    exact absurd hlive (by decide)

/-! ## One operation and whole sequences -/

theorem step_moves (db : Database) (e : Event) (runId : RunId) (hrun : db.runs.get runId = some run) :
    ∃ run', (step db e).runs.get runId = some run' ∧ run.status.Moves run'.status := by
  rcases step_effect db e runId with hcreate | hwrite | hclose
  · rw [view_of_get hrun] at hcreate
    cases hcreate
  · rw [view_of_get hrun] at hwrite
    obtain ⟨run', hrun', -, hmoves, -⟩ := ownerWrite_spec hwrite
    exact ⟨run', hrun', hmoves⟩
  · obtain ⟨run', hrun', hmoves⟩ := rowRel_of_closing
      (R := fun run run' => run.status.ClosingMoves run'.status) (fun _ => .inl rfl)
      (fun h₁ h₂ => h₁.trans h₂) closingWrite_closingMoves hclose run hrun
    exact ⟨run', hrun', hmoves.moves⟩

/-- One operation is an evolution of every run. -/
theorem step_evolves (db : Database) (e : Event) (runId : RunId) :
    RowRel AgentRun.Evolves (db.view runId) ((step db e).view runId) := by
  rcases step_effect db e runId with hcreate | hwrite | hclose
  · intro run hrun
    rw [view_of_get hrun] at hcreate
    cases hcreate
  · exact ownerWrite_evolves hwrite
  · exact rowRel_of_closing AgentRun.Evolves.refl (fun h₁ h₂ => h₁.trans h₂)
      closingWrite_evolves hclose

/-- Every sequence of operations is an evolution of every run. -/
theorem exec_evolves (db : Database) (es : List Event) (runId : RunId) :
    RowRel AgentRun.Evolves (db.view runId) ((Transition.exec step db es).view runId) :=
  Transition.exec_rel step
    (R := fun db db' => RowRel AgentRun.Evolves (db.view runId) (db'.view runId))
    (fun _ run hrun => ⟨run, hrun, .refl run⟩)
    (fun h₁ h₂ run hrun => by
      obtain ⟨run₁, hrun₁, hev₁⟩ := h₁ run hrun
      obtain ⟨run₂, hrun₂, hev₂⟩ := h₂ run₁ hrun₁
      exact ⟨run₂, hrun₂, hev₁.trans hev₂⟩)
    (fun db e => step_evolves db e runId) db es

/-! ## Rows created by the repository -/

/-- A run that waits or has finished holds no lease. -/
def LeaseIdle (v : RunView) : Prop :=
  ∀ run, v.run = some run → (run.status = .pending ∨ run.status.isTerminal) →
    run.workerId = none ∧ run.heartbeatAt = none ∧ run.leaseExpiresAt = none

theorem closingWrite_leaseIdle (h : ClosingWrite v v') (hv : LeaseIdle v) : LeaseIdle v' := by
  cases h with
  | cancelledBeforeStart hfresh =>
    have hidle := hv _ rfl (.inl (AgentRun.notStarted_status hfresh))
    rintro run ⟨⟩ -
    exact hidle
  | cancelAsked hlive =>
    rintro run ⟨⟩ hstatus
    simp [AgentRun.cancelAsked, RunStatus.isTerminal] at hstatus
  | treeCancelled hfresh =>
    rintro run ⟨⟩ -
    exact ⟨rfl, rfl, rfl⟩
  | treeCancelAsked hlive =>
    rintro run ⟨⟩ hstatus
    simp [AgentRun.treeCancelAsked, RunStatus.isTerminal] at hstatus
  | leaseLost hlive =>
    rintro run ⟨⟩ -
    exact ⟨rfl, rfl, rfl⟩
  | storageMigrated hlive =>
    rintro run ⟨⟩ -
    exact ⟨rfl, rfl, rfl⟩

theorem leaseIdle_of_leased (hstatus : run.status = .running ∨ run.status = .cancelRequested) :
    LeaseIdle ⟨some run, ledger⟩ := by
  rintro run' ⟨⟩ hidle
  rcases hstatus with hs | hs <;> simp [hs, RunStatus.isTerminal] at hidle

theorem ownerWrite_leaseIdle (h : OwnerWrite now v v') (hv : LeaseIdle v) : LeaseIdle v' := by
  cases h with
  | @opened run ledger workerId leaseSeconds n hseconds hlive hclean hclaim hmax =>
    refine leaseIdle_of_leased ?_
    simp only [AgentRun.initialClaim, Bool.or_eq_true, Bool.and_eq_true, beq_iff_eq] at hclaim
    rcases hclaim with hs | ⟨hs, -⟩ <;> simp [AgentRun.claimed, hs]
  | continued hseconds howner hledger =>
    refine leaseIdle_of_leased ?_
    rcases leasedOwner_status howner with hs | hs <;> simp [AgentRun.claimed, hs]
  | renewed hseconds howner hledger =>
    refine leaseIdle_of_leased ?_
    simpa [AgentRun.renewed] using leasedOwner_status howner
  | released howner hledger =>
    rintro run ⟨⟩ -
    exact ⟨rfl, rfl, rfl⟩
  | terminated hterminal hguard hledger =>
    rintro run ⟨⟩ -
    exact ⟨rfl, rfl, rfl⟩
  | cleared hterminal hleftover =>
    rintro run ⟨⟩ -
    exact ⟨rfl, rfl, rfl⟩
  | recorded howner hrecords =>
    refine leaseIdle_of_leased ?_
    rw [hrecords.same]
    exact leasedOwner_status howner

theorem effect_leaseIdle (h : Effect now v v') (hv : LeaseIdle v) : LeaseIdle v' := by
  rcases h with hcreate | hwrite | hclose
  · cases hcreate with
    | created hshape =>
      rintro run ⟨⟩ -
      exact ⟨rfl, rfl, rfl⟩
  · exact ownerWrite_leaseIdle hwrite hv
  · induction hclose with
    | refl => exact hv
    | tail _ hlast ih => exact closingWrite_leaseIdle hlast ih

variable {db : Database} {runId : RunId}

theorem exec_leaseIdle (hfresh : db.runs.get runId = none)
    (es : List Event) : LeaseIdle ((Transition.exec step db es).view runId) := by
  refine Transition.exec_invariant step (P := fun db => LeaseIdle (db.view runId))
    (fun db e h => effect_leaseIdle (step_effect db e runId) h) ?_ es
  intro run hrun
  rw [Database.view_run, hfresh] at hrun
  cases hrun

/-- A finished row without a lease is not written at all. -/
theorem step_settled (hrun : db.runs.get runId = some run) (hterminal : run.status.isTerminal)
    (hidle : run.workerId = none ∧ run.heartbeatAt = none ∧ run.leaseExpiresAt = none)
    (e : Event) : (step db e).view runId = db.view runId := by
  rcases step_effect db e runId with hcreate | hwrite | hclose
  · rw [view_of_get hrun] at hcreate
    cases hcreate
  · rw [view_of_get hrun] at hwrite
    generalize hv' : (step db e).view runId = v' at hwrite
    cases hwrite with
    | opened hseconds hlive => simp [hlive] at hterminal
    | continued hseconds howner => simp [leasedOwner_live howner] at hterminal
    | renewed hseconds howner => simp [leasedOwner_live howner] at hterminal
    | released howner =>
      simp [leasedOwner_live (leasedOwner_of_runningOwner howner)] at hterminal
    | terminated hstatus hguard => simp [(terminalGuard_moves hstatus hguard).1] at hterminal
    | cleared hdone hleftover => simp [hidle] at hleftover
    | recorded howner => simp [leasedOwner_live howner] at hterminal
  · rcases ReflTransGen.cases_head hclose with hsame | ⟨v₁, hfirst, -⟩
    · exact hsame.symm
    · rw [view_of_get hrun] at hfirst
      obtain ⟨-, -, hlive, -⟩ := closingWrite_spec hfirst
      simp [hlive] at hterminal

/-- For every database and every sequence of operations: the next operation moves each
status along the graph and new runs start pending; a requested cancellation ends
cancelled or failed; a finished run keeps every column but a leftover lease, and keeps
the whole row when the repository created it. -/
theorem status_graph (db : Database) (es : List Event) (runId : RunId) :
    (∀ e run', (Transition.exec step db es).runs.get runId = none →
      (Transition.exec step db (es ++ [e])).runs.get runId = some run' → run'.status = .pending) ∧
    ∀ run, (Transition.exec step db es).runs.get runId = some run →
      (∀ e, ∃ run', (Transition.exec step db (es ++ [e])).runs.get runId = some run' ∧
        (run'.status = run.status ∨ run'.status ∈ run.status.successors)) ∧
      (∀ es', ∃ run', (Transition.exec step db (es ++ es')).runs.get runId = some run' ∧
        (run.status = .cancelRequested →
          run'.status ∈ [RunStatus.cancelRequested, .cancelled, .failed]) ∧
        (run.status.isTerminal → run.SameResult run' ∧
          (db.runs.get runId = none → run' = run))) := by
  refine ⟨?_, ?_⟩
  · intro e run' hnone hrun'
    rw [Transition.exec_append, Transition.exec_cons, Transition.exec_nil] at hrun'
    have hview : (Transition.exec step db es).view runId =
        ⟨none, ((Transition.exec step db es).view runId).ledger⟩ := by
      simp [Database.view, hnone]
    rcases step_effect (Transition.exec step db es) e runId with hcreate | hwrite | hclose
    · rw [hview] at hcreate
      generalize hv' : (step (Transition.exec step db es) e).view runId = v' at hcreate
      cases hcreate with
      | created hshape =>
        have hrow := congrArg RunView.run hv'
        rw [Database.view_run, hrun'] at hrow
        cases hrow
        rfl
    · rw [hview] at hwrite
      cases hwrite
    · rcases ReflTransGen.cases_head hclose with hsame | ⟨v₁, hfirst, -⟩
      · have hrow := congrArg RunView.run hsame
        rw [Database.view_run, Database.view_run, hnone, hrun'] at hrow
        cases hrow
      · rw [hview] at hfirst
        cases hfirst
  · intro run hrun
    refine ⟨fun e => ?_, fun es' => ?_⟩
    · rw [Transition.exec_append, Transition.exec_cons, Transition.exec_nil]
      exact step_moves _ e runId hrun
    · rw [Transition.exec_append]
      obtain ⟨run', hrun', hev⟩ := exec_evolves (Transition.exec step db es) es' runId run hrun
      refine ⟨run', hrun', hev.cancelling, fun hterminal => ⟨hev.finished hterminal, ?_⟩⟩
      intro hfresh
      have hidle := exec_leaseIdle hfresh es run hrun (.inr hterminal)
      have hkept : (Transition.exec step (Transition.exec step db es) es').runs.get runId =
          some run :=
        Transition.exec_invariant step (P := fun db' => db'.runs.get runId = some run)
          (fun db' e h => (congrArg RunView.run (step_settled h hterminal hidle e)).trans h)
          hrun es'
      rw [Database.view_run] at hrun'
      rw [hkept] at hrun'
      exact (Option.some.inj hrun').symm

end AgentRunRepository
end Yuanlei
