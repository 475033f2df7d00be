import Yuanlei.Execution.CreationWrites
import Yuanlei.AgentRun.StatusGraph

/-!
# Thread exclusivity

A thread of a user and an agent has at most one chat or resume run that is still
executing or whose runtime still has to be cleaned up.  The index of the database
covers only the first half; the rest follows from the checks that the creating
services make under the lock of the conversation.

Main results:

- `Exclusive`: the invariant.
- `thread_exclusivity`: it holds in every reachable state.
-/

namespace Yuanlei

open Relation
open AgentRunRepository

/-- Top-level runs keep the scope of their thread, and no thread has two active ones. -/
structure Exclusive (db : Database) : Prop where
  scope : ∀ {runId run}, db.runs.get runId = some run → run.runType.isTopLevel →
    run.runtimeScopeId = run.conversationThreadId
  single : ∀ {i j : RunId} {a b : AgentRun}, db.runs.get i = some a → db.runs.get j = some b →
    a.runType.isTopLevel → b.runType.isTopLevel → a.isActive → b.isActive →
    threadKey a = threadKey b → i = j

/-! ## Rows that do not become active again -/

/-- Every row comes from a row with the same identity that was active if it is. -/
def ComesFrom (db db' : Database) : Prop :=
  ∀ runId run', db'.runs.get runId = some run' →
    ∃ run, db.runs.get runId = some run ∧ run'.identity = run.identity ∧
      (run'.isActive → run.isActive)

variable {db db' : Database}

theorem Exclusive.of_comesFrom (h : Exclusive db) (hback : ComesFrom db db') : Exclusive db' where
  scope := by
    intro runId run' hrun' htop
    obtain ⟨run, hrun, hidentity, -⟩ := hback runId run' hrun'
    have htype : run'.runType = run.runType := congrArg RunIdentity.runType hidentity
    have hscope := h.scope hrun (htype ▸ htop)
    calc
      run'.runtimeScopeId = run.runtimeScopeId := congrArg RunIdentity.runtimeScopeId hidentity
      _ = run.conversationThreadId := hscope
      _ = run'.conversationThreadId :=
          (congrArg RunIdentity.conversationThreadId hidentity).symm
  single := by
    intro i j a' b' ha' hb' htopA htopB hactiveA hactiveB hkey
    obtain ⟨a, ha, hidA, hbackA⟩ := hback i a' ha'
    obtain ⟨b, hb, hidB, hbackB⟩ := hback j b' hb'
    have hkeyA : threadKey a' = threadKey a := by
      simp only [threadKey, Prod.mk.injEq]
      exact ⟨congrArg RunIdentity.uid hidA, congrArg RunIdentity.agentSlug hidA,
        congrArg RunIdentity.conversationThreadId hidA⟩
    have hkeyB : threadKey b' = threadKey b := by
      simp only [threadKey, Prod.mk.injEq]
      exact ⟨congrArg RunIdentity.uid hidB, congrArg RunIdentity.agentSlug hidB,
        congrArg RunIdentity.conversationThreadId hidB⟩
    refine h.single ha hb ?_ ?_ (hbackA hactiveA) (hbackB hactiveB)
      (hkeyA.symm.trans (hkey.trans hkeyB))
    · have htype : a'.runType = a.runType := congrArg RunIdentity.runType hidA
      exact htype ▸ htopA
    · have htype : b'.runType = b.runType := congrArg RunIdentity.runType hidB
      exact htype ▸ htopB

variable {run run' : AgentRun}

theorem AgentRun.Evolves.isActive (h : run.Evolves run')
    (hactive : run'.isActive) : run.isActive := by
  cases hterminal : run.status.isTerminal with
  | false => simp [AgentRun.isActive, hterminal]
  | true =>
    have hsame := h.finished hterminal
    rwa [hsame] at hactive

theorem closingWrites_no_run {v v' : RunView} (h : ReflTransGen ClosingWrite v v')
    (hnone : v.run = none) : v'.run = none := by
  obtain ⟨run, ledger⟩ := v
  obtain rfl : run = none := hnone
  rcases ReflTransGen.cases_head h with rfl | ⟨v₁, hfirst, -⟩
  · rfl
  · cases hfirst

variable {runId : RunId}

theorem closes_back (h : Closes db db') (hrun' : db'.runs.get runId = some run') :
    ∃ run, db.runs.get runId = some run ∧ run.Evolves run' := by
  cases hrun : db.runs.get runId with
  | some run =>
    obtain ⟨run₁, hrun₁, hev⟩ := rowRel_of_closing AgentRun.Evolves.refl AgentRun.Evolves.trans
      closingWrite_evolves (h runId) run hrun
    rw [Database.view_run, hrun'] at hrun₁
    cases hrun₁
    exact ⟨run, rfl, hev⟩
  | none =>
    have hnone := closingWrites_no_run (h runId) hrun
    rw [Database.view_run, hrun'] at hnone
    cases hnone

theorem execution_back (db : Database) (e : Event) (hexec : e.op.isExecution)
    (hrun' : (step db e).runs.get runId = some run') :
    ∃ run, db.runs.get runId = some run ∧ run.Evolves run' := by
  cases hrun : db.runs.get runId with
  | some run =>
    obtain ⟨run₁, hrun₁, hev⟩ := step_evolves db e runId run hrun
    rw [Database.view_run, hrun'] at hrun₁
    cases hrun₁
    exact ⟨run, rfl, hev⟩
  | none =>
    exfalso
    rcases execution_effect db e hexec runId with hwrite | hclose
    · have hview : db.view runId = ⟨none, (db.view runId).ledger⟩ := by
        simp [Database.view, hrun]
      rw [hview] at hwrite
      cases hwrite
    · have hnone := closingWrites_no_run hclose hrun
      rw [Database.view_run, hrun'] at hnone
      cases hnone

theorem execution_comesFrom (db : Database) (e : Event) (hexec : e.op.isExecution) :
    ComesFrom db (step db e) := by
  intro runId run' hrun'
  obtain ⟨run, hrun, hev⟩ := execution_back db e hexec hrun'
  exact ⟨run, hrun, hev.identity, hev.isActive⟩

theorem clearFence_comesFrom (db : Database) (runId : RunId) :
    ComesFrom db (clearFence db runId) := by
  intro j run' hrun'
  simp only [clearFence, Table.get_modify] at hrun'
  split_ifs at hrun' with hj
  · obtain ⟨run, hrun, rfl⟩ := Option.map_eq_some_iff.mp hrun'
    refine ⟨run, hrun, rfl, ?_⟩
    simp only [AgentRun.isActive, Bool.or_false, Bool.or_eq_true]
    exact Or.inl
  · exact ⟨run', hrun', rfl, id⟩

theorem comesFrom_of_runs_eq (hruns : db'.runs = db.runs) : ComesFrom db db' := by
  intro runId run' hrun'
  rw [hruns] at hrun'
  exact ⟨run', hrun', rfl, id⟩

/-! ## Insertions -/

variable {now : Time}

theorem row_scope {args : CreateRun} (hshape : (args.row now).shapeOk)
    (htop : args.runType.isTopLevel) :
    (args.row now).runtimeScopeId = (args.row now).conversationThreadId := by
  have htype : (args.row now).runType = args.runType := rfl
  have hpending : (args.row now).status.isTerminal = false := rfl
  simp only [AgentRun.shapeOk, hpending, Bool.false_or, Bool.and_eq_true, htype] at hshape
  cases hcase : args.runType with
  | subagent => simp [hcase, RunType.isTopLevel] at htop
  | chat =>
    have hscope := hshape.2
    simp only [hcase, Bool.and_eq_true, beq_iff_eq] at hscope
    exact hscope.1.1
  | resume =>
    have hscope := hshape.2
    simp only [hcase, Bool.and_eq_true, beq_iff_eq] at hscope
    exact hscope.1.1

theorem Exclusive.insert {db db' : Database} {args : CreateRun} {now : Time} (h : Exclusive db)
    (hinserted : Inserted db args now db')
    (hidle : args.runType.isTopLevel → ∀ {runId run}, db.runs.get runId = some run →
      run.runType.isTopLevel → run.isActive → threadKey run ≠ threadKey (args.row now)) :
    Exclusive db' where
  scope := by
    intro runId run hrun htop
    rw [hinserted.runs] at hrun
    split_ifs at hrun with hnew
    · cases hrun
      exact row_scope hinserted.shape htop
    · exact h.scope hrun htop
  single := by
    intro i j a b ha hb htopA htopB hactiveA hactiveB hkey
    rw [hinserted.runs] at ha hb
    split_ifs at ha hb with hi hj hj
    · rw [hi, hj]
    · cases ha
      exact absurd hkey.symm (hidle htopA hb htopB hactiveB)
    · cases hb
      exact absurd hkey (hidle htopB ha htopA hactiveA)
    · exact h.single ha hb htopA htopB hactiveA hactiveB hkey

/-! ## Steps -/

theorem Exclusive.idle_of_scope (h : Exclusive db) {threadId uid : String}
    (hidle : db.getActiveRunByRuntimeScopeForUser threadId uid = none)
    (hrun : db.runs.get runId = some run) (htop : run.runType.isTopLevel)
    (hactive : run.isActive) : ¬ (run.uid = uid ∧ run.conversationThreadId = threadId) := by
  rintro ⟨huid, hthread⟩
  have hscope := h.scope hrun htop
  have hnone := (db.newestRun_eq_none_iff _).mp hidle runId run hrun
  simp [hscope, huid, hthread, hactive] at hnone

theorem linkDispatch_runs (db : Database) (requestId : String) (head : AgentRunRequest)
    (plan : DispatchPlan) (now : Time) :
    (linkDispatch db requestId head plan now).runs = db.runs := by
  simp only [linkDispatch, markDispatched]
  exact bindRunScope_runs db _ _ _

theorem queueWrite_exclusive (hwrite : QueueWrite db db') (h : Exclusive db) : Exclusive db' := by
  cases hwrite with
  | request hstatus hundispatched hinput hmessage hsteer hinsert =>
    obtain ⟨-, -, -, -, hdb⟩ := insertRequest_get hinsert
    refine h.of_comesFrom (comesFrom_of_runs_eq ?_)
    rw [hdb]
  | @dispatch db₁ requestId head binding plan now hhead hqueued hidle hcreated =>
    refine @Exclusive.insert _ _ (chatRun requestId head binding plan.runId) now h
      ⟨hcreated.shape, hcreated.freshId, ?_⟩ ?_
    · rw [linkDispatch_runs]
      exact hcreated.runs
    · intro _ runId run hrun htop hactive hkey
      simp only [threadKey, Prod.mk.injEq] at hkey
      exact h.idle_of_scope hidle hrun htop hactive ⟨hkey.1, hkey.2.2⟩
  | reject hrequest hqueued => exact h.of_comesFrom (comesFrom_of_runs_eq rfl)
  | execute e hexec => exact h.of_comesFrom (execution_comesFrom db e hexec)
  | fence runId => exact h.of_comesFrom (clearFence_comesFrom db runId)
  | message hinsert => exact h.of_comesFrom (comesFrom_of_runs_eq rfl)
  | context conversations projects => exact h.of_comesFrom (comesFrom_of_runs_eq rfl)

theorem commitWrite_runs {loaded : LoadedRequest} (hwrite : CommitWrite loaded now db db') : db'.runs = db.runs := by
  cases hwrite <;> rfl

theorem creationWrite_exclusive (hwrite : CreationWrite db db')
    (h : Exclusive db) : Exclusive db' := by
  cases hwrite with
  | none hruns => exact h.of_comesFrom (comesFrom_of_runs_eq hruns)
  | @resume args now parentId parent hinserted htype hcreator hparent hinterrupted hidle =>
    refine h.insert hinserted fun _ runId run hrun htop hactive hkey => ?_
    have hnone := (db.newestRun_eq_none_iff _).mp hidle runId run hrun
    simp only [threadKey, Prod.mk.injEq] at hkey
    obtain ⟨huid, hslug, hthread⟩ := hkey
    simp [huid, hslug, hthread, hactive, CreateRun.row] at hnone
  | subagent hinserted htype hcreator hget htop =>
    refine h.insert hinserted fun htop' => ?_
    rw [htype] at htop'
    cases htop'

theorem serviceStep_exclusive (s : System) (e : ServiceEvent) (h : Exclusive s.db) :
    Exclusive (serviceStep s e).db := by
  rcases serviceStep_writes s e with hwrites | ⟨loaded, hcommit⟩ | hcreation
  · exact hwrites.invariant queueWrite_exclusive h
  · exact h.of_comesFrom (comesFrom_of_runs_eq (commitWrite_runs hcommit))
  · exact creationWrite_exclusive hcreation h

/-- For each user, agent and thread at most one chat or resume run is not terminal or has its
runtime cleanup pending. -/
def ThreadExclusive (db : Database) : Prop :=
  ∀ (i j : RunId) (a b : AgentRun), db.runs.get i = some a → db.runs.get j = some b →
    (a.runType = .chat ∨ a.runType = .resume) → (b.runType = .chat ∨ b.runType = .resume) →
    (a.status.isTerminal = false ∨ a.runtimeCleanupPending = true) →
    (b.status.isTerminal = false ∨ b.runtimeCleanupPending = true) →
    (a.uid = b.uid ∧ a.agentSlug = b.agentSlug ∧
      a.conversationThreadId = b.conversationThreadId) → i = j

/-- In every state that the services reach, every thread is exclusive. -/
theorem thread_exclusivity (es : List ServiceEvent) :
    ThreadExclusive (Transition.exec serviceStep System.initial es).db := by
  have hinitial : Exclusive System.initial.db := by
    constructor
    · intro runId run hrun
      cases hrun
    · intro i j a b ha
      cases ha
  have h := Transition.exec_invariant serviceStep (P := fun s => Exclusive s.db)
    serviceStep_exclusive hinitial es
  have htop : ∀ {run : AgentRun}, run.runType = .chat ∨ run.runType = .resume →
      run.runType.isTopLevel := by
    intro run htype
    rcases htype with ht | ht <;> simp [ht, RunType.isTopLevel]
  have hactive : ∀ {run : AgentRun},
      run.status.isTerminal = false ∨ run.runtimeCleanupPending = true → run.isActive := by
    intro run hrun
    rcases hrun with hr | hr <;> simp [AgentRun.isActive, hr]
  intro i j a b ha hb htypeA htypeB hactiveA hactiveB hkey
  refine h.single ha hb (htop htypeA) (htop htypeB) (hactive hactiveA) (hactive hactiveB) ?_
  simp [threadKey, hkey]

end Yuanlei
