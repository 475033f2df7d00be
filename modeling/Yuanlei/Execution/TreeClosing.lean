import Yuanlei.Execution.TreeScope

/-!
# Closing an execution tree is complete

The walk below a root is a breadth-first search in rows that it rewrites: it stops a run
when it meets it, and reads the next generation afterwards.  A run that it has not met has
its old row, so the search meets what was below the root before it started.

Main results:

- `cancelActiveExecutionTreeDescendants_exact`: the walk stops the live runs below its
  root, reports each of them once, and writes no other row.
- `cancelled_tree_stays_stopped`: no run of a cancelled tree runs again, whatever the services do.
- `reconciled_run_stays_ended`: nor does a run whose expired lease has been reconciled.
-/

namespace Yuanlei

open AgentRunRepository

/-! ## The runs below a root -/

/-- A live run of the scope of the root that was created by it, or by such a run. -/
inductive LiveBelow (db : Database) (root : TreeRoot) (rootId : RunId) : RunId → Prop
  | child {runId : RunId} {run : AgentRun} (hrun : db.runs.get runId = some run)
      (hselected : inTree root [rootId] runId run) : LiveBelow db root rootId runId
  | descendant {parentId runId : RunId} {run : AgentRun}
      (hparent : LiveBelow db root rootId parentId) (hrun : db.runs.get runId = some run)
      (hselected : inTree root [parentId] runId run) : LiveBelow db root rootId runId

variable {db : Database} {root : TreeRoot} {rootId runId : RunId} {run : AgentRun}
  {parentIds : List RunId} {st : TreeState} {now : Time}

/-- A selected run is a child of one run of the frontier. -/
theorem inTree_iff : inTree root parentIds runId run ↔
    ∃ parentId ∈ parentIds, inTree root [parentId] runId run := by
  cases hcreator : run.createdByRunId with
  | none => simp [inTree, hcreator]
  | some creatorId =>
    simp only [inTree, hcreator, Option.any_some, List.contains_iff_mem, Bool.and_eq_true,
      List.mem_singleton]
    constructor
    · rintro ⟨⟨⟨hmem, huid⟩, hscope⟩, hlive⟩
      exact ⟨creatorId, hmem, ⟨⟨rfl, huid⟩, hscope⟩, hlive⟩
    · rintro ⟨parentId, hmem, ⟨⟨rfl, huid⟩, hscope⟩, hlive⟩
      exact ⟨⟨⟨hmem, huid⟩, hscope⟩, hlive⟩

/-! ## One generation -/

/-- The walk reports the runs that it has seen, each once. -/
structure Reported (st : TreeState) : Prop where
  nodup : st.seenIds.Nodup
  seen : st.seenIds = (st.cancelled.map Prod.fst).reverse

/-- A generation puts the runs that it sees first on the next frontier. -/
theorem treeVisit_foldl_reported (now : Time) (rows : List (RunId × AgentRun)) (h : Reported st) :
    Reported (rows.foldl (treeVisit now) st) ∧
      ∃ fresh, (rows.foldl (treeVisit now) st).pendingParentIds = st.pendingParentIds ++ fresh ∧
        (rows.foldl (treeVisit now) st).seenIds = fresh.reverse ++ st.seenIds := by
  induction rows generalizing st with
  | nil => exact ⟨h, [], by simp⟩
  | cons e rows ih =>
    rw [List.foldl_cons]
    by_cases hseen : e.1 ∈ st.seenIds
    · have hstay : treeVisit now st e = st := by
        rw [treeVisit, if_pos (List.contains_iff_mem.mpr hseen)]
      rw [hstay]
      exact ih h
    · have hvisit : treeVisit now st e =
          { db := closeChild st.db e.1 e.2 now
            pendingParentIds := st.pendingParentIds ++ [e.1]
            seenIds := e.1 :: st.seenIds
            cancelled := st.cancelled ++ [(e.1, e.2.conversationThreadId)] } := by
        rw [treeVisit, if_neg (by simpa using hseen)]
      have hvisited : Reported (treeVisit now st e) := by
        rw [hvisit]
        exact ⟨List.nodup_cons.mpr ⟨hseen, h.nodup⟩, by simp [h.seen]⟩
      obtain ⟨hreported, fresh, hpending, hids⟩ := ih hvisited
      rw [hvisit] at hpending hids ⊢
      exact ⟨hvisit ▸ hreported, e.1 :: fresh, by simp [hpending], by simp [hids]⟩

/-! ## The whole walk -/

/-- The walk has stopped runs below the root only, and has seen every child of the root and of
a run that it has seen, unless it has yet to look at the children of that run. -/
structure Walked (db : Database) (root : TreeRoot) (rootId : RunId) (now : Time) (st : TreeState) :
    Prop where
  stopped : Stopped db (fun runId _ => LiveBelow db root rootId runId) now st
  reported : Reported st
  frontier : ∀ parentId ∈ st.pendingParentIds, parentId = rootId ∨ parentId ∈ st.seenIds
  expanded : ∀ {parentId runId run}, parentId = rootId ∨ parentId ∈ st.seenIds →
    parentId ∉ st.pendingParentIds → db.runs.get runId = some run →
    inTree root [parentId] runId run → runId ∈ st.seenIds

theorem walked_treeStart (db : Database) (root : TreeRoot) (rootId : RunId) (now : Time) :
    Walked db root rootId now (treeStart db rootId) where
  stopped := ⟨fun _ => rfl, fun h => by cases h⟩
  reported := ⟨List.nodup_nil, rfl⟩
  frontier := fun parentId h => .inl (List.mem_singleton.mp h)
  expanded := by
    rintro parentId runId run (rfl | hseen) hpending
    · exact absurd (List.mem_singleton_self _) hpending
    · cases hseen

/-- What a run on the frontier has for a child is below the root. -/
theorem Walked.below_of_frontier (h : Walked db root rootId now st)
    (hrun : db.runs.get runId = some run) (hselected : inTree root st.pendingParentIds runId run) :
    LiveBelow db root rootId runId := by
  obtain ⟨parentId, hmem, hchild⟩ := inTree_iff.mp hselected
  rcases h.frontier parentId hmem with rfl | hseen
  · exact .child hrun hchild
  · obtain ⟨-, -, -, hbelow, -⟩ := h.stopped.stopped hseen
    exact .descendant hbelow hrun hchild

/-- A round goes one generation further: it sees a run for the first time, or it is the last. -/
theorem Walked.treeRound (h : Walked db root rootId now st) :
    Walked db root rootId now (treeRound root now st) ∧
      ((treeRound root now st).pendingParentIds ≠ [] →
        st.seenIds.length < (treeRound root now st).seenIds.length) := by
  have hkind : ∀ e ∈ activeChildren st.db root st.pendingParentIds, e.1 ∉ st.seenIds →
      LiveBelow db root rootId e.1 := by
    intro e he hnew
    obtain ⟨hcurrent, hselected⟩ := mem_activeChildren.mp he
    rw [h.stopped.kept hnew] at hcurrent
    exact h.below_of_frontier hcurrent hselected
  obtain ⟨hstopped, hnext, hgrow, hall⟩ := treeVisit_foldl_stopped
    (activeChildren st.db root st.pendingParentIds) { st with pendingParentIds := [] }
    ⟨h.stopped.kept, h.stopped.stopped⟩ (activeChildren_liveRows st.db root st.pendingParentIds)
    hkind (List.nil_subset _)
  have hstart : Reported { st with pendingParentIds := [] } :=
    ⟨h.reported.nodup, h.reported.seen⟩
  obtain ⟨hreported, fresh, hpending, hids⟩ := treeVisit_foldl_reported now
    (activeChildren st.db root st.pendingParentIds) hstart
  rw [List.nil_append] at hpending
  refine ⟨⟨hstopped, hreported, fun parentId hmem => .inr (hnext hmem), ?_⟩, ?_⟩
  · intro parentId runId run hparent hdone hrun hselected
    by_cases hseen : runId ∈ st.seenIds
    · exact hgrow hseen
    by_cases hfrontier : parentId ∈ st.pendingParentIds
    · -- The round has looked at the children of this run.
      have hrow : st.db.runs.get runId = some run := (h.stopped.kept hseen).trans hrun
      exact hall (runId, run)
        (mem_activeChildren.mpr ⟨hrow, inTree_iff.mpr ⟨parentId, hfrontier, hselected⟩⟩)
    · rcases hparent with rfl | hparent
      · exact absurd (h.expanded (.inl rfl) hfrontier hrun hselected) hseen
      · have hold : parentId ∈ st.seenIds := by
          refine (List.mem_append.mp (hids ▸ hparent)).resolve_left fun hnew => hdone ?_
          exact hpending ▸ List.mem_reverse.mp hnew
        exact absurd (h.expanded (.inr hold) hfrontier hrun hselected) hseen
  · intro hgoes
    have hlength : (AgentRunRepository.treeRound root now st).seenIds.length =
        fresh.length + st.seenIds.length := by
      refine (congrArg List.length hids).trans ?_
      simp
    have hpos : 0 < fresh.length := List.length_pos_iff.mpr fun hnil => hgoes (hpending.trans hnil)
    omega

theorem Walked.length_le (h : Walked db root rootId now st) :
    st.seenIds.length ≤ db.runs.rows.length := by
  have hsubset : st.seenIds ⊆ db.runs.keys := by
    intro runId hmem
    obtain ⟨run, hrun, -⟩ := h.stopped.stopped hmem
    have hrow := (db.runs.mem_rows_iff runId run).mpr hrun
    exact List.mem_map_of_mem (f := Prod.fst) hrow
  have hle := h.reported.nodup.length_le_of_subset hsubset
  simpa [Table.keys] using hle

theorem Walked.treeLoop (h : Walked db root rootId now st) (fuel : Nat)
    (hfuel : st.pendingParentIds ≠ [] → db.runs.rows.length < st.seenIds.length + fuel) :
    Walked db root rootId now (treeLoop root now fuel st) ∧
      (treeLoop root now fuel st).pendingParentIds = [] := by
  induction fuel generalizing st with
  | zero =>
    refine ⟨h, ?_⟩
    by_contra hgoes
    have hlt := hfuel hgoes
    have hle := h.length_le
    omega
  | succ fuel ih =>
    rw [AgentRunRepository.treeLoop]
    split_ifs with hdone
    · exact ⟨h, hdone⟩
    · obtain ⟨hround, hmore⟩ := h.treeRound
      refine ih hround fun hgoes => ?_
      have hlt := hfuel hdone
      have hlonger := hmore hgoes
      omega

theorem Walked.mem_iff (h : Walked db root rootId now st) (hdone : st.pendingParentIds = []) :
    runId ∈ st.seenIds ↔ LiveBelow db root rootId runId := by
  constructor
  · intro hseen
    obtain ⟨-, -, -, hbelow, -⟩ := h.stopped.stopped hseen
    exact hbelow
  · intro hbelow
    induction hbelow with
    | child hrun hselected => exact h.expanded (.inl rfl) (by simp [hdone]) hrun hselected
    | descendant _ hrun hselected ih =>
      exact h.expanded (.inr ih) (by simp [hdone]) hrun hselected

/-- What closing a tree leaves of the run table. -/
structure TreeClosed (db db' : Database) (tree : RunId → Prop) (now : Time)
    (runIds : List RunId) : Prop where
  once : runIds.Nodup
  mem_iff : ∀ runId, runId ∈ runIds ↔ tree runId
  stopped : ∀ runId ∈ runIds, ∃ run, db.runs.get runId = some run ∧
    run.status.isTerminal = false ∧ db'.runs.get runId = some (run.treeStopped now)
  kept : ∀ runId, runId ∉ runIds → db'.runs.get runId = db.runs.get runId

theorem treeClosed_walk (db : Database) (root : TreeRoot) (rootId : RunId) (now : Time) :
    TreeClosed db (treeLoop root now (db.runs.rows.length + 2) (treeStart db rootId)).db
      (LiveBelow db root rootId) now
      ((treeLoop root now (db.runs.rows.length + 2) (treeStart db rootId)).cancelled.map
        Prod.fst) := by
  obtain ⟨hwalked, hdone⟩ := (walked_treeStart db root rootId now).treeLoop
    (db.runs.rows.length + 2) (fun _ => by omega)
  have hmem : ∀ runId, runId ∈ (treeLoop root now (db.runs.rows.length + 2)
      (treeStart db rootId)).cancelled.map Prod.fst ↔
      runId ∈ (treeLoop root now (db.runs.rows.length + 2) (treeStart db rootId)).seenIds := by
    intro runId
    rw [hwalked.reported.seen, List.mem_reverse]
  refine ⟨?_, fun runId => (hmem runId).trans (hwalked.mem_iff hdone), ?_, ?_⟩
  · have hnodup := hwalked.reported.nodup
    rw [hwalked.reported.seen, List.nodup_reverse] at hnodup
    exact hnodup
  · intro runId hrunId
    obtain ⟨run, hrun, hlive, -, hrow⟩ := hwalked.stopped.stopped ((hmem runId).mp hrunId)
    exact ⟨run, hrun, hlive, hrow⟩
  · intro runId hrunId
    exact hwalked.stopped.kept (mt (hmem runId).mpr hrunId)

/-- Closing the tree below a top-level run stops the live runs below it, reports each of them
once, and leaves every other row; closing it below a subagent does nothing. -/
theorem cancelActiveExecutionTreeDescendants_exact (db : Database) (rootId : RunId)
    (root : AgentRun) (now : Time) :
    TreeClosed db (cancelActiveExecutionTreeDescendants db rootId root now).2
      (fun runId =>
        root.runType ≠ .subagent ∧ LiveBelow db (treeRoot db rootId root) rootId runId) now
      ((cancelActiveExecutionTreeDescendants db rootId root now).1.map Prod.fst) := by
  unfold cancelActiveExecutionTreeDescendants
  split_ifs with hsub
  · exact ⟨List.nodup_nil, by simp [hsub], by simp, by simp⟩
  · have hclosed := treeClosed_walk db (treeRoot db rootId root) rootId now
    exact ⟨hclosed.once, fun runId => (hclosed.mem_iff runId).trans (by simp [hsub]),
      hclosed.stopped, hclosed.kept⟩

/-! ## Cancelling a tree -/

/-- The run was asked to stop or has ended. -/
def AgentRun.isStopped (run : AgentRun) : Prop :=
  run.status = .cancelRequested ∨ run.status.isTerminal

variable {run' : AgentRun} {db' : Database}

theorem AgentRun.Evolves.isStopped (h : run.Evolves run') (hstopped : run.isStopped) :
    run'.isStopped := by
  rcases hstopped with hasked | hended
  · have hmem := h.cancelling hasked
    simp only [List.mem_cons, List.not_mem_nil, or_false] at hmem
    rcases hmem with hstatus | hstatus | hstatus
    · exact .inl hstatus
    · exact .inr (by rw [hstatus]; rfl)
    · exact .inr (by rw [hstatus]; rfl)
  · exact .inr (h.isTerminal hended)

/-- The run is there, and it was asked to stop or has ended. -/
def IsStopped (db : Database) (runId : RunId) : Prop :=
  ∃ run, db.runs.get runId = some run ∧ run.isStopped

theorem RunsOutlive.isStopped (h : RunsOutlive db db') (hstopped : IsStopped db runId) :
    IsStopped db' runId := by
  obtain ⟨run, hrun, hstatus⟩ := hstopped
  obtain ⟨run', hrun', hev⟩ := h runId run hrun
  exact ⟨run', hrun', hev.isStopped hstatus⟩

theorem AgentRun.isStopped_treeStopped (run : AgentRun) (now : Time) :
    (run.treeStopped now).isStopped := by
  unfold treeStopped
  split_ifs
  · exact .inr rfl
  · exact .inl rfl

theorem requestCancelLocked_get (hrun : db.runs.get runId = some run) (now : Time) :
    IsStopped (requestCancelLocked db runId run now) runId ∧
      ∀ j, j ≠ runId → (requestCancelLocked db runId run now).runs.get j = db.runs.get j := by
  unfold requestCancelLocked
  split_ifs with hended hfresh
  · exact ⟨⟨run, hrun, .inr hended⟩, fun _ _ => rfl⟩
  · simp only [IsStopped, Database.projectInputDeliveryStatus_runs]
    refine ⟨⟨_, Database.get_setRun_self db hrun _, .inr rfl⟩, fun j hj => ?_⟩
    exact Database.get_setRun_of_ne db hj _
  · refine ⟨⟨_, Database.get_setRun_self db hrun _, .inl rfl⟩, fun j hj => ?_⟩
    exact Database.get_setRun_of_ne db hj _

theorem treeRoot_requestCancelLocked (db : Database) (runId : RunId) (run : AgentRun) (now : Time) :
    treeRoot (requestCancelLocked db runId run now) runId run = treeRoot db runId run := by
  unfold requestCancelLocked
  split_ifs
  · rfl
  · have hscopes : ((db.setRun runId (run.cancelledBeforeStart now)).projectInputDeliveryStatus
        (run.cancelledBeforeStart now)).scopes = db.scopes := by
      unfold Database.projectInputDeliveryStatus
      split <;> rfl
    simp only [treeRoot, listScopeRunIds, hscopes]
  · rfl

theorem LiveBelow.of_rows (hrows : ∀ j, j ≠ rootId → db'.runs.get j = db.runs.get j)
    (h : LiveBelow db root rootId runId) : runId = rootId ∨ LiveBelow db' root rootId runId := by
  induction h with
  | @child runId run hrun hselected =>
    by_cases hroot : runId = rootId
    · exact .inl hroot
    · exact .inr (.child ((hrows runId hroot).trans hrun) hselected)
  | @descendant parentId runId run _ hrun hselected ih =>
    by_cases hroot : runId = rootId
    · exact .inl hroot
    · have hrun' := (hrows runId hroot).trans hrun
      rcases ih with rfl | hparent
      · exact .inr (.child hrun' hselected)
      · exact .inr (.descendant hparent hrun' hselected)

/-- After `request_cancel_execution_tree` on a top-level run, the run and everything live below
it have been asked to stop or have ended, and no service ever lets one of them run again. -/
theorem cancelled_tree_stays_stopped (s : System) (runId : RunId) (run : AgentRun)
    (hrun : s.db.runs.get runId = some run) (htop : run.runType ≠ .subagent) (now treeNow : Time)
    (es : List ServiceEvent) (j : RunId)
    (hj : j = runId ∨ LiveBelow s.db (treeRoot s.db runId run) runId j) :
    IsStopped (Transition.exec serviceStep s
      (⟨now, .queue (.execute (.requestCancelExecutionTree runId run.uid true treeNow))⟩ :: es)).db
      j := by
  rw [Transition.exec_cons]
  refine RunsOutlive.isStopped (serviceExec_outlive _ es) ?_
  obtain ⟨hroot, hothers⟩ := requestCancelLocked_get hrun now
  have hclosed := treeClosed_walk (requestCancelLocked s.db runId run now)
    (treeRoot s.db runId run) runId treeNow
  have hstep : (serviceStep s ⟨now, .queue (.execute
      (.requestCancelExecutionTree runId run.uid true treeNow))⟩).db =
      (cancelActiveExecutionTreeDescendants (requestCancelLocked s.db runId run now) runId run
        treeNow).2 := by
    simp [serviceStep, queueStep, Op.isExecution, step, requestCancelExecutionTree, hrun,
      Option.filter]
  rw [hstep, cancelActiveExecutionTreeDescendants, if_neg htop,
    treeRoot_requestCancelLocked]
  by_cases hstopped : j ∈ (treeLoop (treeRoot s.db runId run) treeNow
      ((requestCancelLocked s.db runId run now).runs.rows.length + 2)
      (treeStart (requestCancelLocked s.db runId run now) runId)).cancelled.map Prod.fst
  · obtain ⟨row, -, -, hrow⟩ := hclosed.stopped j hstopped
    exact ⟨_, hrow, row.isStopped_treeStopped treeNow⟩
  · have hbelow := mt (hclosed.mem_iff j).mpr hstopped
    have hself : j = runId := by
      rcases hj with hself | htree
      · exact hself
      · exact (htree.of_rows hothers).resolve_right hbelow
    subst hself
    obtain ⟨row, hrow, hstatus⟩ := hroot
    exact ⟨row, (hclosed.kept j hstopped).trans hrow, hstatus⟩

/-- A root with a subagent that has been started below it. -/
def startedTree : System where
  db :=
    { Database.empty with
      runs :=
        { rows := [("root", loadedRoot), ("child", { loadedRoot with
            runType := .subagent
            createdByRunId := some "root"
            status := .running
            startedAt := some 2 })]
          nodupKeys := by decide } }
  submissions := []
  loaded := []
  targets := []

/-- The subagent is asked to stop with the root. -/
theorem cancelled_tree_stays_stopped_startedTree :
    IsStopped (Transition.exec serviceStep startedTree
      [⟨3, .queue (.execute (.requestCancelExecutionTree "root" loadedRoot.uid true 4))⟩]).db
      "child" :=
  cancelled_tree_stays_stopped startedTree "root" loadedRoot rfl (by decide) 3 4 [] "child"
    (.inr (.child rfl (by decide)))

/-! ## Lost runs -/

/-- The run is there and has ended. -/
def HasEnded (db : Database) (runId : RunId) : Prop :=
  ∃ run, db.runs.get runId = some run ∧ run.status.isTerminal

theorem evolves_of_closes (h : Closes db db') (hrun : db.runs.get runId = some run) :
    ∃ run', db'.runs.get runId = some run' ∧ run.Evolves run' :=
  rowRel_of_closing AgentRun.Evolves.refl AgentRun.Evolves.trans closingWrite_evolves (h runId) run
    hrun

theorem HasEnded.of_closes (h : HasEnded db runId) (hcloses : Closes db db') :
    HasEnded db' runId := by
  obtain ⟨run, hrun, hended⟩ := h
  obtain ⟨run', hrun', hev⟩ := evolves_of_closes hcloses hrun
  exact ⟨run', hrun', hev.isTerminal hended⟩

theorem hasEnded_reconcileVisit (treeNow : RunId → Time) {st : ReconcileState}
    (hrun : st.db.runs.get runId = some run) :
    HasEnded (reconcileVisit now treeNow st runId).db runId := by
  cases hlive : run.status.isTerminal with
  | true =>
    have hstay : reconcileVisit now treeNow st runId = st := by
      simp only [reconcileVisit, hrun, hlive, if_true]
    rw [hstay]
    exact ⟨run, hrun, hlive⟩
  | false =>
    obtain ⟨db₁, hruns₁, hvisit⟩ := reconcileVisit_eq now treeNow hrun hlive
    rw [hvisit]
    refine HasEnded.of_closes ?_ (closingRel_serviceCloses.cancelDescendants db₁ runId _ _).closes
    exact ⟨run.leaseLost now, by rw [hruns₁, Database.get_setRun_self st.db hrun], rfl⟩

theorem hasEnded_foldl (treeNow : RunId → Time) {runIds : List RunId} (hmem : runId ∈ runIds)
    {st : ReconcileState} (hrun : st.db.runs.get runId = some run) :
    HasEnded (runIds.foldl (reconcileVisit now treeNow) st).db runId := by
  induction runIds generalizing st run with
  | nil => cases hmem
  | cons visited runIds ih =>
    rw [List.foldl_cons]
    have hcloses : ∀ st : ReconcileState,
        Closes st.db (runIds.foldl (reconcileVisit now treeNow) st).db := fun st =>
      (Transition.exec_rel (reconcileVisit now treeNow) (R := fun s s' => ServiceCloses s.db s'.db)
        (fun _ => .refl _) .trans
        (fun s j => closingRel_serviceCloses.reconcileVisit now treeNow s j) st runIds).closes
    rcases List.mem_cons.mp hmem with rfl | hlater
    · exact (hasEnded_reconcileVisit treeNow hrun).of_closes (hcloses _)
    · obtain ⟨run', hrun', -⟩ := evolves_of_closes
        (closingRel_serviceCloses.reconcileVisit now treeNow st visited).closes hrun
      exact ih hlater hrun'

/-- Reconciling leases ends every run that has lost its owner, whatever the order of the rows and
the trees that are closed on the way; under the services it stays ended. -/
theorem reconciled_run_stays_ended (s : System) (scan : List RunId) (now : Time)
    (treeNow : RunId → Time) (hmem : runId ∈ scan) (hrun : s.db.runs.get runId = some run)
    (hlost : lostOwner run now) (es : List ServiceEvent) :
    HasEnded (Transition.exec serviceStep s
      (⟨now, .queue (.execute (.reconcileExpiredLeases scan treeNow))⟩ :: es)).db runId := by
  have hstep : (serviceStep s ⟨now, .queue (.execute (.reconcileExpiredLeases scan treeNow))⟩).db =
      (reconcileExpiredLeases s.db scan now treeNow).db := by
    simp [serviceStep, queueStep, Op.isExecution, step]
  have hscanned : runId ∈ reconcileOrder s.db scan now := by
    simp only [reconcileOrder, List.mem_append, List.mem_filter, hrun, Option.any_some, hmem, hlost]
    cases run.createdByRunId.isSome <;> simp
  obtain ⟨run', hrun', hended⟩ : HasEnded (reconcileExpiredLeases s.db scan now treeNow).db runId :=
    hasEnded_foldl treeNow hscanned hrun
  rw [Transition.exec_cons]
  obtain ⟨run'', hrun'', hev⟩ := serviceExec_outlive
    (serviceStep s ⟨now, .queue (.execute (.reconcileExpiredLeases scan treeNow))⟩) es runId run'
    (by rw [Database.view_run, hstep, hrun'])
  exact ⟨run'', hrun'', hev.isTerminal hended⟩

/-- The subagent of `startedTree` has no lease. -/
theorem reconciled_run_stays_ended_startedTree :
    HasEnded (Transition.exec serviceStep startedTree
      [⟨3, .queue (.execute (.reconcileExpiredLeases ["child"] fun _ => 3))⟩]).db "child" :=
  reconciled_run_stays_ended startedTree ["child"] 3 (fun _ => 3) (by decide) rfl (by decide) []

/-! ## All runs -/

/-- Under any sequence of steps of the services, from any state, a run keeps its identity, a
requested cancellation is not taken back, and a finished run keeps its result. -/
theorem services_keep_runs (s : System) (es : List ServiceEvent)
    (hrun : s.db.runs.get runId = some run) :
    ∃ run', (Transition.exec serviceStep s es).db.runs.get runId = some run' ∧
      run'.identity = run.identity ∧
      (run.status = .cancelRequested →
        run'.status ∈ [RunStatus.cancelRequested, .cancelled, .failed]) ∧
      (run.status.isTerminal → run.unfenced.SameResult run'.unfenced) := by
  obtain ⟨run', hrun', hev⟩ := serviceExec_outlive s es runId run hrun
  exact ⟨run', hrun', hev.identity, hev.cancelling, hev.finished⟩

theorem services_keep_runs_startedTree :
    ∃ run', (Transition.exec serviceStep startedTree
      [⟨3, .queue (.execute (.reconcileExpiredLeases ["child"] fun _ => 3))⟩]).db.runs.get "root" =
        some run' ∧ run'.identity = loadedRoot.identity := by
  obtain ⟨run', hrun', hidentity, -⟩ := services_keep_runs startedTree
    [⟨3, .queue (.execute (.reconcileExpiredLeases ["child"] fun _ => 3))⟩]
    (rfl : startedTree.db.runs.get "root" = some loadedRoot)
  exact ⟨run', hrun', hidentity⟩

end Yuanlei
