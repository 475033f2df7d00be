import Yuanlei.Execution.Exclusivity

/-!
# Runs under all services

The queue, the creation services and the release of a runtime write runs next to the repository.
They insert rows, or take down the fence of a runtime that has been released; all else that
happens to a run is an operation of the repository.

Main results:

- `serviceStep_outlive`: what one step of the services keeps of every run.
- `serviceExec_outlive`: what every sequence of steps keeps.
-/

namespace Yuanlei

open AgentRunRepository

variable {run run' : AgentRun}

theorem AgentRun.Evolves.isTerminal (h : run.Evolves run')
    (hended : run.status.isTerminal) : run'.status.isTerminal := by
  rw [(h.finished hended).status]
  exact hended

/-- The row without the fence of its runtime, which stands until the sandbox is released. -/
def AgentRun.unfenced (run : AgentRun) : AgentRun :=
  { run with runtimeCleanupPending := false }

theorem AgentRun.Evolves.unfenced (h : run.Evolves run') : run.unfenced.Evolves run'.unfenced where
  identity := h.identity
  cancelling := h.cancelling
  finished := by
    intro hended
    have hsame := h.finished hended
    unfold SameResult AgentRun.unfenced at *
    rw [hsame]

/-- Every run of the first database is there in the second.  It has kept its identity, a requested
cancellation, and its result if it had finished; only the fence of its runtime is free. -/
def RunsOutlive (db db' : Database) : Prop :=
  ∀ runId, RowRel (fun run run' => run.unfenced.Evolves run'.unfenced) (db.view runId)
    (db'.view runId)

variable {db db' : Database} {now : Time}

theorem RunsOutlive.of_runs_eq (h : db'.runs = db.runs) : RunsOutlive db db' := by
  intro runId run hrun
  refine ⟨run, ?_, AgentRun.Evolves.refl _⟩
  rw [Database.view_run, h]
  exact hrun

theorem RunsOutlive.trans {db₁ : Database} (h₁ : RunsOutlive db db₁) (h₂ : RunsOutlive db₁ db') :
    RunsOutlive db db' := by
  intro runId run hrun
  obtain ⟨run₁, hrun₁, hfirst⟩ := h₁ runId run hrun
  obtain ⟨run₂, hrun₂, hsecond⟩ := h₂ runId run₁ hrun₁
  exact ⟨run₂, hrun₂, hfirst.trans hsecond⟩

theorem RunsOutlive.of_inserted {args : CreateRun} (h : Inserted db args now db') :
    RunsOutlive db db' := by
  intro runId run hrun
  rw [Database.view_run] at hrun
  refine ⟨run, ?_, AgentRun.Evolves.refl _⟩
  rw [Database.view_run, h.runs, if_neg, hrun]
  rintro rfl
  rw [h.freshId] at hrun
  cases hrun

theorem clearFence_outlive (db : Database) (runId : RunId) : RunsOutlive db (clearFence db runId) := by
  intro j run hrun
  rw [Database.view_run] at hrun
  simp only [Database.view_run, clearFence, Table.get_modify, hrun]
  split_ifs
  · exact ⟨_, rfl, AgentRun.Evolves.refl run.unfenced⟩
  · exact ⟨run, rfl, AgentRun.Evolves.refl _⟩

theorem queueWrite_outlive (h : QueueWrite db db') : RunsOutlive db db' := by
  cases h with
  | request hstatus hundispatched hinput hmessage hsteer hinsert =>
    obtain ⟨-, -, -, -, hdb⟩ := insertRequest_get hinsert
    exact .of_runs_eq (by rw [hdb])
  | @dispatch db₁ requestId head binding plan now hhead hqueued hidle hcreated =>
    have hinsert : RunsOutlive db db₁ :=
      .of_inserted ⟨hcreated.shape, hcreated.freshId, hcreated.runs⟩
    exact hinsert.trans (.of_runs_eq (linkDispatch_runs db₁ requestId head plan now))
  | reject hrequest hqueued => exact .of_runs_eq rfl
  | execute e hexec =>
    intro runId run hrun
    obtain ⟨run', hrun', hev⟩ := step_evolves db e runId run hrun
    exact ⟨run', hrun', hev.unfenced⟩
  | fence runId => exact clearFence_outlive db runId
  | message hinsert => exact .of_runs_eq rfl
  | context conversations projects => exact .of_runs_eq rfl

theorem serviceStep_outlive (s : System) (e : ServiceEvent) :
    RunsOutlive s.db (serviceStep s e).db := by
  rcases serviceStep_writes s e with hwrites | ⟨loaded, hcommit⟩ | hcreation
  · exact hwrites.invariant (fun hwrite h => h.trans (queueWrite_outlive hwrite)) (.of_runs_eq rfl)
  · exact .of_runs_eq (commitWrite_runs hcommit)
  · cases hcreation with
    | none hruns => exact .of_runs_eq hruns
    | resume hinserted => exact .of_inserted hinserted
    | subagent hinserted => exact .of_inserted hinserted

theorem serviceExec_outlive (s : System) (es : List ServiceEvent) :
    RunsOutlive s.db (Transition.exec serviceStep s es).db :=
  Transition.exec_rel serviceStep (R := fun s s' => RunsOutlive s.db s'.db)
    (fun _ => .of_runs_eq rfl) .trans serviceStep_outlive s es

end Yuanlei
