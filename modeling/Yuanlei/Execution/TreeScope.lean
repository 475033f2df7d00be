import Yuanlei.Execution.Evolution

/-!
# What closing an execution tree touches

The walk below a root selects runs by their creator, their user and their scope, not by
their type.  Chat runs have no creator and the creator of a resume run has ended, so below
the first generation the walk meets subagents only.  The children of the root itself are a
different matter: the run that resumes an interrupted root is one of them.

Main results:

- `tree_closing_keeps_top_level_iff`: closing a tree leaves top-level runs alone
  exactly when the root has no active resume run.
- `late_closing_cancels_resume`: an interrupted root whose tree is closed after the
  resume.
-/

namespace Yuanlei

open Relation
open AgentRunRepository

/-! ## Creators of reachable runs -/

/-- Chat runs have no creator, and the creator of a resume run has ended. -/
structure Lineage (db : Database) : Prop where
  chat : ∀ {runId run}, db.runs.get runId = some run → run.runType = .chat →
    run.createdByRunId = none
  resume : ∀ {runId run}, db.runs.get runId = some run → run.runType = .resume →
    ∃ parentId parent, run.createdByRunId = some parentId ∧
      db.runs.get parentId = some parent ∧ parent.status.isTerminal

variable {db db' : Database}

/-- Rewriting rows keeps the lineage when identities stay and ended runs stay ended. -/
theorem Lineage.of_rows (h : Lineage db) (hback : ∀ {runId run'}, db'.runs.get runId = some run' →
      ∃ run, db.runs.get runId = some run ∧ run'.identity = run.identity)
    (hforth : ∀ {runId run}, db.runs.get runId = some run → run.status.isTerminal →
      ∃ run', db'.runs.get runId = some run' ∧ run'.status.isTerminal) : Lineage db' where
  chat := by
    intro runId run' hrun' htype
    obtain ⟨run, hrun, hidentity⟩ := hback hrun'
    have hcreator : run'.createdByRunId = run.createdByRunId :=
      congrArg RunIdentity.createdByRunId hidentity
    rw [hcreator]
    exact h.chat hrun ((congrArg RunIdentity.runType hidentity).symm.trans htype)
  resume := by
    intro runId run' hrun' htype
    obtain ⟨run, hrun, hidentity⟩ := hback hrun'
    obtain ⟨parentId, parent, hcreator, hparent, hended⟩ :=
      h.resume hrun ((congrArg RunIdentity.runType hidentity).symm.trans htype)
    obtain ⟨parent', hparent', hended'⟩ := hforth hparent hended
    exact ⟨parentId, parent', (congrArg RunIdentity.createdByRunId hidentity).trans hcreator,
      hparent', hended'⟩

theorem Lineage.of_runs_eq (h : Lineage db) (hruns : db'.runs = db.runs) :
    Lineage db' :=
  h.of_rows (fun hrun' => ⟨_, hruns ▸ hrun', rfl⟩) (fun hrun hended => ⟨_, hruns ▸ hrun, hended⟩)

variable {run run' : AgentRun}

theorem Lineage.of_closes (h : Lineage db) (hcloses : Closes db db') :
    Lineage db' := by
  refine h.of_rows ?_ ?_
  · intro runId run' hrun'
    obtain ⟨run, hrun, hev⟩ := closes_back hcloses hrun'
    exact ⟨run, hrun, hev.identity⟩
  · intro runId run hrun hended
    obtain ⟨run', hrun', hev⟩ := rowRel_of_closing AgentRun.Evolves.refl AgentRun.Evolves.trans
      closingWrite_evolves (hcloses runId) run hrun
    exact ⟨run', hrun', hev.isTerminal hended⟩

variable {runId : RunId} {db₁ : Database}

theorem Lineage.setRun_terminal (h : Lineage db) (hrun : db.runs.get runId = some run)
    (hruns : db₁.runs = (db.setRun runId run').runs) (hidentity : run'.identity = run.identity)
    (hended : run'.status.isTerminal) : Lineage db₁ := by
  have hget : ∀ j, db₁.runs.get j = if j = runId then some run' else db.runs.get j := by
    intro j
    rw [hruns, Database.setRun, Table.get_modify]
    split_ifs with hj
    · rw [hj, hrun]
      rfl
    · rfl
  refine h.of_rows ?_ ?_
  · intro j row' hrow'
    rw [hget] at hrow'
    split_ifs at hrow' with hj
    · cases hrow'
      exact ⟨run, hj ▸ hrun, hidentity⟩
    · exact ⟨row', hrow', rfl⟩
  · intro j row hrow hdone
    rw [hget]
    split_ifs with hj
    · exact ⟨run', rfl, hended⟩
    · exact ⟨row, hrow, hdone⟩

theorem Lineage.insert {db db' : Database} {args : CreateRun} {now : Time} (h : Lineage db)
    (hinserted : Inserted db args now db')
    (hparent : args.runType = .resume → ∃ parentId parent, args.createdByRunId = some parentId ∧
      db.runs.get parentId = some parent ∧ parent.status.isTerminal) : Lineage db' where
  chat := by
    intro runId run hrun htype
    rw [hinserted.runs] at hrun
    split_ifs at hrun with hnew
    · cases hrun
      have hshape := hinserted.shape
      have hpending : (args.row now).status.isTerminal = false := rfl
      simp only [AgentRun.shapeOk, hpending, htype, Bool.false_or, Bool.and_eq_true,
        Option.isNone_iff_eq_none] at hshape
      exact hshape.2.1.2
    · exact h.chat hrun htype
  resume := by
    intro runId run hrun htype
    -- A creator that was there before is not the new row.
    have hkept : ∀ {parentId parent}, db.runs.get parentId = some parent →
        db'.runs.get parentId = some parent := by
      intro parentId parent hget
      rw [hinserted.runs, if_neg]
      · exact hget
      · rintro rfl
        rw [hinserted.freshId] at hget
        cases hget
    rw [hinserted.runs] at hrun
    split_ifs at hrun with hnew
    · cases hrun
      obtain ⟨parentId, parent, hcreator, hget, hended⟩ := hparent htype
      exact ⟨parentId, parent, hcreator, hkept hget, hended⟩
    · obtain ⟨parentId, parent, hcreator, hget, hended⟩ := h.resume hrun htype
      exact ⟨parentId, parent, hcreator, hkept hget, hended⟩

theorem execution_lineage (db : Database) (e : Event) (hexec : e.op.isExecution)
    (h : Lineage db) : Lineage (step db e) := by
  refine h.of_rows ?_ ?_
  · intro runId run' hrun'
    obtain ⟨run, hrun, hev⟩ := execution_back db e hexec hrun'
    exact ⟨run, hrun, hev.identity⟩
  · intro runId run hrun hended
    obtain ⟨run', hrun', hev⟩ := step_evolves db e runId run hrun
    exact ⟨run', hrun', hev.isTerminal hended⟩

theorem queueWrite_lineage (hwrite : QueueWrite db db') (h : Lineage db) :
    Lineage db' := by
  cases hwrite with
  | request hstatus hundispatched hinput hmessage hsteer hinsert =>
    obtain ⟨-, -, -, -, hdb⟩ := insertRequest_get hinsert
    exact h.of_runs_eq (by rw [hdb])
  | @dispatch db₁ requestId head binding plan now hhead hqueued hidle hcreated =>
    refine @Lineage.insert _ _ (chatRun requestId head binding plan.runId) now h
      ⟨hcreated.shape, hcreated.freshId, ?_⟩ (fun htype => by cases htype)
    rw [linkDispatch_runs]
    exact hcreated.runs
  | reject hrequest hqueued => exact h.of_runs_eq rfl
  | execute e hexec => exact execution_lineage db e hexec h
  | fence runId =>
    refine h.of_rows ?_ ?_
    · intro j run' hrun'
      obtain ⟨run, hrun, hidentity, -⟩ := clearFence_comesFrom db runId j run' hrun'
      exact ⟨run, hrun, hidentity⟩
    · intro j run hrun hended
      simp only [clearFence, Table.get_modify]
      split_ifs
      · exact ⟨{ run with runtimeCleanupPending := false }, by rw [hrun]; rfl, hended⟩
      · exact ⟨run, hrun, hended⟩
  | message hinsert => exact h.of_runs_eq rfl
  | context conversations projects => exact h.of_runs_eq rfl

theorem creationWrite_lineage (hwrite : CreationWrite db db') (h : Lineage db) : Lineage db' := by
  cases hwrite with
  | none hruns => exact h.of_runs_eq hruns
  | @resume args now parentId parent hinserted htype hcreator hparent hinterrupted hidle =>
    refine h.insert hinserted fun _ => ⟨parentId, parent, hcreator, hparent, ?_⟩
    rw [hinterrupted]
    rfl
  | subagent hinserted htype hcreator hget htop =>
    refine h.insert hinserted fun hresume => ?_
    rw [htype] at hresume
    cases hresume

theorem serviceStep_lineage (s : System) (e : ServiceEvent) (h : Lineage s.db) :
    Lineage (serviceStep s e).db := by
  rcases serviceStep_writes s e with hwrites | ⟨loaded, hcommit⟩ | hcreation
  · exact hwrites.invariant queueWrite_lineage h
  · exact h.of_runs_eq (commitWrite_runs hcommit)
  · exact creationWrite_lineage hcreation h

theorem exec_lineage (es : List ServiceEvent) :
    Lineage (Transition.exec serviceStep System.initial es).db := by
  refine Transition.exec_invariant serviceStep (P := fun s => Lineage s.db) serviceStep_lineage
    ⟨?_, ?_⟩ es
  · intro runId run hrun
    cases hrun
  · intro runId run hrun
    cases hrun

/-! ## Rows that the walk rewrites -/

/-- The row that the walk leaves of an active descendant. -/
def AgentRun.treeStopped (run : AgentRun) (now : Time) : AgentRun :=
  if run.notStarted then run.treeCancelled now else run.treeCancelAsked now

theorem closeChild_get {childId : RunId} {child : AgentRun}
    (hchild : db.runs.get childId = some child) (now : Time) :
    (closeChild db childId child now).runs.get childId = some (child.treeStopped now) := by
  have hview : (closeChild db childId child now).view childId =
      ⟨some (child.treeStopped now), ((closeChild db childId child now).view childId).ledger⟩ := by
    unfold closeChild AgentRun.treeStopped
    split_ifs with hfresh
    · rw [view_closeOpenAttempts_self (child.treeCancelled now) hchild (by simp)
        (by simp)]
    · rw [view_setRun_self hchild]
  exact congrArg RunView.run hview

/-- The walk from `db` has stopped the runs it has seen, all of them live and of the kind
`A`, and no other run. -/
structure Stopped (db : Database) (A : RunId → AgentRun → Prop) (now : Time) (st : TreeState) :
    Prop where
  kept : ∀ {runId}, runId ∉ st.seenIds → st.db.runs.get runId = db.runs.get runId
  stopped : ∀ {runId}, runId ∈ st.seenIds → ∃ run, db.runs.get runId = some run ∧
    run.status.isTerminal = false ∧ A runId run ∧
    st.db.runs.get runId = some (run.treeStopped now)

variable {now : Time}

/-- One generation: all its rows are seen afterwards, and the next frontier has been seen. -/
theorem treeVisit_foldl_stopped {A : RunId → AgentRun → Prop} (rows : List (RunId × AgentRun))
    (st : TreeState) (hst : Stopped db A now st)
    (hrows : LiveRows st.db rows) (hkind : ∀ e ∈ rows, e.1 ∉ st.seenIds → A e.1 e.2)
    (hpending : st.pendingParentIds ⊆ st.seenIds) :
    Stopped db A now (rows.foldl (treeVisit now) st) ∧
      (rows.foldl (treeVisit now) st).pendingParentIds ⊆ (rows.foldl (treeVisit now) st).seenIds ∧
      st.seenIds ⊆ (rows.foldl (treeVisit now) st).seenIds ∧
      ∀ e ∈ rows, e.1 ∈ (rows.foldl (treeVisit now) st).seenIds := by
  induction rows generalizing st with
  | nil => exact ⟨hst, hpending, List.Subset.refl _, fun e he => by cases he⟩
  | cons e rows ih =>
    rw [List.foldl_cons]
    by_cases hseen : e.1 ∈ st.seenIds
    · have hstay : treeVisit now st e = st := by
        rw [treeVisit, if_pos (List.contains_iff_mem.mpr hseen)]
      rw [hstay]
      obtain ⟨hinv, hnext, hgrow, hall⟩ := ih st hst (hrows.tail fun _ _ => rfl)
        (fun e' he' => hkind e' (List.mem_cons_of_mem _ he')) hpending
      refine ⟨hinv, hnext, hgrow, fun e' he' => ?_⟩
      rcases List.mem_cons.mp he' with rfl | htail
      · exact hgrow hseen
      · exact hall e' htail
    · have hvisit : treeVisit now st e =
          { db := closeChild st.db e.1 e.2 now
            pendingParentIds := st.pendingParentIds ++ [e.1]
            seenIds := e.1 :: st.seenIds
            cancelled := st.cancelled ++ [(e.1, e.2.conversationThreadId)] } := by
        rw [treeVisit, if_neg (by simpa using hseen)]
      have hcurrent := hrows.current e List.mem_cons_self
      have hother : ∀ j, j ≠ e.1 → (treeVisit now st e).db.view j = st.db.view j := by
        intro j hj
        rw [hvisit]
        exact closeChild_view_of_ne st.db hj e.2 now
      have hsame : ∀ j, j ≠ e.1 → (treeVisit now st e).db.runs.get j = st.db.runs.get j :=
        fun j hj => congrArg RunView.run (hother j hj)
      have hstep : Stopped db A now (treeVisit now st e) := by
        constructor
        · intro j hj
          rw [hvisit] at hj
          obtain ⟨hne, hold⟩ := not_or.mp fun h => hj (List.mem_cons.mpr h)
          rw [hsame j hne]
          exact hst.kept hold
        · intro j hj
          by_cases hje : j = e.1
          · subst hje
            refine ⟨e.2, ?_, hrows.live e List.mem_cons_self,
              hkind e List.mem_cons_self hseen, ?_⟩
            · rw [← hst.kept hseen]
              exact hcurrent
            · rw [hvisit]
              exact closeChild_get hcurrent now
          · rw [hvisit] at hj
            rw [hsame j hje]
            exact hst.stopped ((List.mem_cons.mp hj).resolve_left hje)
      have hgrow₁ : st.seenIds ⊆ (treeVisit now st e).seenIds := by
        rw [hvisit]
        exact List.subset_cons_self _ _
      have hself : e.1 ∈ (treeVisit now st e).seenIds := by
        rw [hvisit]
        exact List.mem_cons_self
      have hpending₁ : (treeVisit now st e).pendingParentIds ⊆ (treeVisit now st e).seenIds := by
        rw [hvisit]
        intro j hj
        rcases List.mem_append.mp hj with hold | hnew
        · exact List.mem_cons_of_mem _ (hpending hold)
        · rw [List.mem_singleton.mp hnew]
          exact List.mem_cons_self
      obtain ⟨hinv, hnext, hgrow, hall⟩ := ih (treeVisit now st e) hstep
        (hrows.tail hother)
        (fun e' he' hnew => hkind e' (List.mem_cons_of_mem _ he') fun h => hnew (hgrow₁ h))
        hpending₁
      refine ⟨hinv, hnext, List.Subset.trans hgrow₁ hgrow, fun e' he' => ?_⟩
      rcases List.mem_cons.mp he' with rfl | htail
      · exact hgrow hself
      · exact hall e' htail

/-- What the walk meets: subagents, and resume runs that the root was resumed by. -/
def TreeMember (root : TreeRoot) (rootId runId : RunId) (run : AgentRun) : Prop :=
  run.runType = .subagent ∨ run.runType = .resume ∧ inTree root [rootId] runId run

variable {root : TreeRoot} {parentIds : List RunId}

theorem inTree_creator (h : inTree root parentIds runId run) :
    ∃ parentId ∈ parentIds, run.createdByRunId = some parentId := by
  simp only [inTree, Bool.and_eq_true, Option.any_eq_true] at h
  obtain ⟨⟨⟨⟨parentId, hcreator, hmem⟩, -⟩, -⟩, -⟩ := h
  exact ⟨parentId, List.contains_iff_mem.mp hmem, hcreator⟩

theorem mem_activeChildren {e : RunId × AgentRun} :
    e ∈ activeChildren db root parentIds ↔
      db.runs.get e.1 = some e.2 ∧ inTree root parentIds e.1 e.2 := by
  rw [activeChildren, List.mem_insertionSort, List.mem_filter, ← Table.mem_rows_iff]

variable {rootId : RunId} {st : TreeState}

theorem treeRound_stopped (hlineage : Lineage db) (hst : Stopped db (TreeMember root rootId) now st)
    (hpending : st.pendingParentIds ⊆ st.seenIds) :
    Stopped db (TreeMember root rootId) now (treeRound root now st) ∧
      (treeRound root now st).pendingParentIds ⊆ (treeRound root now st).seenIds ∧
      st.seenIds ⊆ (treeRound root now st).seenIds := by
  have hkind : ∀ e ∈ activeChildren st.db root st.pendingParentIds, e.1 ∉ st.seenIds →
      TreeMember root rootId e.1 e.2 := by
    intro e he hnew
    obtain ⟨hcurrent, hselected⟩ := mem_activeChildren.mp he
    rw [hst.kept hnew] at hcurrent
    obtain ⟨parentId, hmem, hcreator⟩ := inTree_creator hselected
    obtain ⟨parent, hparent, hlive, -, -⟩ := hst.stopped (hpending hmem)
    cases htype : e.2.runType with
    | subagent => exact .inl htype
    | chat =>
      rw [hlineage.chat hcurrent htype] at hcreator
      cases hcreator
    | resume =>
      -- The creator of a resume run has ended, but the frontier was live.
      obtain ⟨parentId', parent', hcreator', hparent', hended⟩ :=
        hlineage.resume hcurrent htype
      rw [hcreator] at hcreator'
      cases hcreator'
      rw [hparent] at hparent'
      cases hparent'
      rw [hlive] at hended
      cases hended
  obtain ⟨hinv, hnext, hgrow, -⟩ := treeVisit_foldl_stopped
    (activeChildren st.db root st.pendingParentIds) { st with pendingParentIds := [] }
    ⟨hst.kept, hst.stopped⟩ (activeChildren_liveRows st.db root st.pendingParentIds) hkind
    (List.nil_subset _)
  exact ⟨hinv, hnext, hgrow⟩

theorem treeLoop_stopped (hlineage : Lineage db) (fuel : Nat)
    (hst : Stopped db (TreeMember root rootId) now st)
    (hpending : st.pendingParentIds ⊆ st.seenIds) :
    Stopped db (TreeMember root rootId) now (treeLoop root now fuel st) ∧
      st.seenIds ⊆ (treeLoop root now fuel st).seenIds := by
  induction fuel generalizing st with
  | zero => exact ⟨hst, List.Subset.refl _⟩
  | succ fuel ih =>
    rw [treeLoop]
    split_ifs
    · exact ⟨hst, List.Subset.refl _⟩
    · obtain ⟨hinv, hnext, hgrow⟩ := treeRound_stopped hlineage hst hpending
      obtain ⟨hlast, hrest⟩ := ih hinv hnext
      exact ⟨hlast, List.Subset.trans hgrow hrest⟩

theorem treeLoop_treeStart_stopped (hlineage : Lineage db) (root : TreeRoot)
    (rootId : RunId) (now : Time) (fuel : Nat) :
    Stopped db (TreeMember root rootId) now (treeLoop root now (fuel + 1) (treeStart db rootId)) ∧
      ∀ {runId run}, db.runs.get runId = some run → inTree root [rootId] runId run →
        runId ∈ (treeLoop root now (fuel + 1) (treeStart db rootId)).seenIds := by
  have hstart : Stopped db (TreeMember root rootId) now
      { treeStart db rootId with pendingParentIds := [] } :=
    ⟨fun _ => rfl, fun h => by cases h⟩
  have hkind : ∀ e ∈ activeChildren db root [rootId], e.1 ∉ (treeStart db rootId).seenIds →
      TreeMember root rootId e.1 e.2 := by
    intro e he _
    obtain ⟨hcurrent, hselected⟩ := mem_activeChildren.mp he
    cases htype : e.2.runType with
    | subagent => exact .inl htype
    | resume => exact .inr ⟨htype, hselected⟩
    | chat =>
      obtain ⟨parentId, -, hcreator⟩ := inTree_creator hselected
      rw [hlineage.chat hcurrent htype] at hcreator
      cases hcreator
  obtain ⟨hinv, hnext, -, hall⟩ := treeVisit_foldl_stopped
    (activeChildren db root [rootId]) { treeStart db rootId with pendingParentIds := [] }
    hstart (activeChildren_liveRows db root [rootId]) hkind (List.nil_subset _)
  obtain ⟨hlast, hgrow⟩ := treeLoop_stopped hlineage fuel hinv hnext
  refine ⟨hlast, fun {runId run} hrun hselected => hgrow ?_⟩
  exact hall (runId, run) (mem_activeChildren.mpr ⟨hrun, hselected⟩)

/-! ## Top-level runs -/

/-- The row already carries what the walk writes to a started run at this time. -/
def AgentRun.AlreadyStopped (run : AgentRun) (now : Time) : Prop :=
  run.status = .cancelRequested ∧ run.errorType = some "execution_tree_closed" ∧
    run.errorMessage = some "父运行已结束，请停止共享执行树" ∧ run.updatedAt = now

theorem AgentRun.treeStopped_eq_iff :
    run.treeStopped now = run ↔ run.AlreadyStopped now := by
  unfold treeStopped
  split_ifs with hfresh
  · have hpending := AgentRun.notStarted_status hfresh
    constructor
    · intro hsame
      have hstatus : RunStatus.cancelled = run.status := congrArg AgentRun.status hsame
      rw [hpending] at hstatus
      cases hstatus
    · intro hstopped
      have hstatus := hstopped.1
      rw [hpending] at hstatus
      cases hstatus
  · constructor
    · intro hsame
      exact ⟨(congrArg AgentRun.status hsame).symm, (congrArg AgentRun.errorType hsame).symm,
        (congrArg AgentRun.errorMessage hsame).symm, (congrArg AgentRun.updatedAt hsame).symm⟩
    · rintro ⟨hstatus, htype, hmessage, hupdated⟩
      simp only [treeCancelAsked, treeClosed, ← hstatus, ← htype, ← hmessage, ← hupdated]

/-- Runs that are not subagents keep their rows. -/
def TopLevelKept (db db' : Database) : Prop :=
  ∀ runId run, db.runs.get runId = some run → run.runType ≠ .subagent →
    db'.runs.get runId = some run

/-- The root has no active resume run in its scope that the walk would still have to stop. -/
def NoResumeToStop (db : Database) (rootId : RunId) (root : AgentRun) (now : Time) : Prop :=
  root.runType = .subagent ∨ ∀ runId run, db.runs.get runId = some run → run.runType = .resume →
    inTree (treeRoot db rootId root) [rootId] runId run → run.AlreadyStopped now

theorem Lineage.topLevelKept_iff (h : Lineage db) (rootId : RunId) (root : AgentRun) (now : Time) :
    TopLevelKept db (cancelActiveExecutionTreeDescendants db rootId root now).2 ↔
      NoResumeToStop db rootId root now := by
  unfold cancelActiveExecutionTreeDescendants NoResumeToStop
  split_ifs with hsub
  · exact ⟨fun _ => .inl hsub, fun _ runId run hrun _ => hrun⟩
  · obtain ⟨hstopped, hall⟩ := treeLoop_treeStart_stopped h (treeRoot db rootId root) rootId now
      (db.runs.rows.length + 1)
    simp only [hsub, false_or]
    constructor
    · intro hkept runId run hrun htype hselected
      obtain ⟨run₀, hrun₀, -, -, hrow⟩ := hstopped.stopped (hall hrun hselected)
      rw [hrun] at hrun₀
      cases hrun₀
      have hsame := hkept runId run hrun (by simp [htype])
      rw [hrow, Option.some.injEq] at hsame
      exact AgentRun.treeStopped_eq_iff.mp hsame
    · intro hnone runId run hrun htop
      by_cases hseen : runId ∈ (treeLoop (treeRoot db rootId root) now
          (db.runs.rows.length + 1 + 1) (treeStart db rootId)).seenIds
      · obtain ⟨run₀, hrun₀, -, hmember, hrow⟩ := hstopped.stopped hseen
        rw [hrun] at hrun₀
        cases hrun₀
        rcases hmember with hsubagent | ⟨htype, hselected⟩
        · exact absurd hsubagent htop
        · refine hrow.trans ?_
          rw [AgentRun.treeStopped_eq_iff.mpr (hnone runId run hrun htype hselected)]
      · exact (hstopped.kept hseen).trans hrun

/-! ## Reconciliation -/

/-- The walk of the reconciliation starts from the database with the lost run written. -/
theorem reconcileVisit_eq (now : Time) (treeNow : RunId → Time) {st : ReconcileState}
    (hrun : st.db.runs.get runId = some run) (hlive : run.status.isTerminal = false) :
    ∃ db₁, db₁.runs = (st.db.setRun runId (run.leaseLost now)).runs ∧
      (reconcileVisit now treeNow st runId).db =
        (cancelActiveExecutionTreeDescendants db₁ runId (run.leaseLost now) (treeNow runId)).2 := by
  unfold reconcileVisit
  simp only [hrun, hlive, Bool.false_eq_true, if_false]
  exact ⟨_, by simp [Database.closeOpenAttempts], rfl⟩

/-- A run that is still live has not been resumed. -/
theorem Lineage.noResumeToStop (h : Lineage db) {lost root : AgentRun}
    (hrun : db.runs.get runId = some run)
    (hlive : run.status.isTerminal = false)
    (hruns : db₁.runs = (db.setRun runId lost).runs) (hlost : lost.status.isTerminal) (now : Time) :
    NoResumeToStop db₁ runId root now := by
  refine .inr fun j child hchild htype hselected => ?_
  exfalso
  rw [hruns, Database.setRun, Table.get_modify] at hchild
  split_ifs at hchild with hj
  · rw [hj, hrun, Option.map_some, Option.some.injEq] at hchild
    subst hchild
    simp [inTree, hlost] at hselected
  · obtain ⟨parentId, parent, hcreator, hparent, hended⟩ := h.resume hchild htype
    obtain ⟨parentId', hmem, hcreator'⟩ := inTree_creator hselected
    rw [hcreator] at hcreator'
    cases hcreator'
    rw [List.mem_singleton.mp hmem, hrun] at hparent
    cases hparent
    rw [hlive] at hended
    cases hended

/-- Reconciling leases writes lost owners and, below them, subagents only. -/
theorem reconcile_foldl_top_level {treeNow : RunId → Time}
    (runIds : List RunId) (st : ReconcileState) (hlineage : Lineage st.db)
    (hrows : ∀ {j run}, db.runs.get j = some run → run.runType ≠ .subagent →
      st.db.runs.get j = some run ∨ st.db.runs.get j = some (run.leaseLost now)) {j : RunId}
    (hrun : db.runs.get j = some run) (htop : run.runType ≠ .subagent) :
    (runIds.foldl (reconcileVisit now treeNow) st).db.runs.get j = some run ∨
      (runIds.foldl (reconcileVisit now treeNow) st).db.runs.get j =
        some (run.leaseLost now) := by
  induction runIds generalizing st with
  | nil => exact hrows hrun htop
  | cons runId runIds ih =>
    have hcloses := (closingRel_serviceCloses.reconcileVisit now treeNow st runId).closes
    refine ih _ (hlineage.of_closes hcloses) fun {k r} hr hkind => ?_
    cases hlost : st.db.runs.get runId with
    | none =>
      have hstay : reconcileVisit now treeNow st runId = st := by
        simp only [reconcileVisit, hlost]
      rw [hstay]
      exact hrows hr hkind
    | some lost =>
      cases hlive : lost.status.isTerminal with
      | true =>
        have hstay : reconcileVisit now treeNow st runId = st := by
          simp only [reconcileVisit, hlost, hlive, if_true]
        rw [hstay]
        exact hrows hr hkind
      | false =>
        obtain ⟨db₁, hruns₁, hvisit⟩ :=
          reconcileVisit_eq now treeNow hlost hlive
        have hlineage₁ : Lineage db₁ := hlineage.setRun_terminal hlost hruns₁ rfl rfl
        have hkept := (hlineage₁.topLevelKept_iff runId (lost.leaseLost now)
          (treeNow runId)).mpr (hlineage.noResumeToStop hlost hlive hruns₁ rfl _)
        rw [hvisit]
        by_cases hk : k = runId
        · subst hk
          rcases hrows hr hkind with hsame | hold
          · rw [hlost, Option.some.injEq] at hsame
            subst hsame
            refine .inr (hkept k (lost.leaseLost now) ?_ hkind)
            rw [hruns₁, Database.get_setRun_self st.db hlost]
          · rw [hlost, Option.some.injEq] at hold
            subst hold
            cases hlive
        · have hget : db₁.runs.get k = st.db.runs.get k := by
            rw [hruns₁, Database.setRun, Table.get_modify, if_neg hk]
          rcases hrows hr hkind with hsame | hold
          · exact .inl (hkept k r (hget.trans hsame) hkind)
          · exact .inr (hkept k (r.leaseLost now) (hget.trans hold) hkind)

/-! ## Main result -/

/-- In every reachable state, closing the tree below a root keeps all runs that are not subagents
exactly when the root has no active resume run left to stop; and reconciling expired leases writes
only the runs that have lost their owner and subagents. -/
theorem tree_closing_keeps_top_level_iff (es : List ServiceEvent) :
    (∀ rootId root now,
      TopLevelKept (Transition.exec serviceStep System.initial es).db
          (cancelActiveExecutionTreeDescendants
            (Transition.exec serviceStep System.initial es).db rootId root now).2 ↔
        NoResumeToStop (Transition.exec serviceStep System.initial es).db rootId root now) ∧
      ∀ scan now treeNow runId run,
        (Transition.exec serviceStep System.initial es).db.runs.get runId = some run →
        run.runType ≠ .subagent →
        (reconcileExpiredLeases (Transition.exec serviceStep System.initial es).db scan now
            treeNow).db.runs.get runId = some run ∨
          (reconcileExpiredLeases (Transition.exec serviceStep System.initial es).db scan now
            treeNow).db.runs.get runId = some (run.leaseLost now) := by
  have h := exec_lineage es
  refine ⟨h.topLevelKept_iff, fun scan now treeNow runId run hrun htop => ?_⟩
  exact reconcile_foldl_top_level _ _ h (fun hr _ => .inl hr) hrun htop

/-! ## A resume that is cancelled -/

/-- The row of the root as its worker has loaded it. -/
def loadedRoot : AgentRun :=
  CreateRun.row
    { runId := "root"
      conversationThreadId := "thread"
      agentSlug := "agent"
      uid := "user"
      requestId := "first"
      inputPayload := [] } 1

/-- A chat run is interrupted, its runtime is released, and the user resumes it. -/
def resumedRoot : List ServiceEvent :=
  (threadSetup.map fun e => ⟨e.now, .queue e.label⟩) ++
    [⟨1, .queue (.submit (threadInput "first") "user" (threadAnswers 1 "root"))⟩,
      ⟨2, .queue (.execute (.markRunning "root" "worker" 60))⟩,
      ⟨3, .queue (.execute
        (.setTerminalStatus "root" .interrupted none none none (some "worker")))⟩,
      ⟨4, .queue (.prepareCleanup "root" loadedRoot "thread" false)⟩,
      ⟨5, .queue (.confirmCleanup 0)⟩,
      ⟨6, .resume
        { agentSlug := "agent"
          threadId := "thread"
          uid := "user"
          requestId := "answer"
          createdByRunId := some "root"
          resume := { present := true }
          content := "" }
        { userExists := true
          agentVisible := true
          agentProjectScope := .ok ()
          agentBackend := .ok ()
          modelSpec := .ok ""
          messageId := 2
          runId := "resume" }⟩]

/-- Closing the tree of the interrupted root after the resume cancels the resume run. -/
theorem late_closing_cancels_resume :
    ∃ root, (Transition.exec serviceStep System.initial resumedRoot).db.runs.get "root" =
        some root ∧ root.status = .interrupted ∧
      ¬ TopLevelKept (Transition.exec serviceStep System.initial resumedRoot).db
        (cancelActiveExecutionTreeDescendants
          (Transition.exec serviceStep System.initial resumedRoot).db "root" root 7).2 := by
  have hbefore : ((Transition.exec serviceStep System.initial resumedRoot).db.runs.get
      "resume").map (fun run => (run.runType, run.status)) = some (.resume, .pending) := by
    decide +kernel
  have hafter : ((Transition.exec serviceStep System.initial resumedRoot).db.runs.get
      "root").map (fun root => (root.status, ((cancelActiveExecutionTreeDescendants
        (Transition.exec serviceStep System.initial resumedRoot).db "root" root 7).2.runs.get
          "resume").map AgentRun.status)) = some (.interrupted, some .cancelled) := by
    decide +kernel
  obtain ⟨resume, hresume, hfields⟩ := Option.map_eq_some_iff.mp hbefore
  obtain ⟨root, hroot, hclosed⟩ := Option.map_eq_some_iff.mp hafter
  simp only [Prod.mk.injEq] at hfields hclosed
  refine ⟨root, hroot, hclosed.1, fun hkept => ?_⟩
  have hsame := hkept "resume" resume hresume (by simp [hfields.1])
  rw [hsame, Option.map_some, hfields.2] at hclosed
  simp at hclosed

end Yuanlei
