import Yuanlei.AgentRun.Repository

/-!
# The agent-run repository: closing operations

Operations of `AgentRunRepository` that end or cancel runs from outside their
owner.  Closing an execution tree is a breadth-first walk along
`created_by_run_id`.

Main results:

- `cancelActiveExecutionTreeDescendants`: the walk that requests
  the active descendants of a run to stop.
- `requestCancelExecutionTree`, `reconcileExpiredLeases` and
  `failNonterminalForStorageMigration`.
-/

namespace Yuanlei.AgentRunRepository

/-! ## The breadth-first walk -/

/-- Row order `created_at asc, id asc`. -/
def creationOrder (a b : RunId × AgentRun) : Prop :=
  a.2.createdAt < b.2.createdAt ∨ (a.2.createdAt = b.2.createdAt ∧ a.1 ≤ b.1)

instance : DecidableRel creationOrder := fun a b =>
  inferInstanceAs (Decidable (a.2.createdAt < b.2.createdAt ∨
    (a.2.createdAt = b.2.createdAt ∧ a.1 ≤ b.1)))

/-- What the walk reads of its root: the columns that decide which runs belong to
the tree. -/
structure TreeRoot where
  uid : String
  scopeKey : String
  scopeRunIds : List RunId

/-- `AgentRunScopeRepository.list_run_ids`. -/
def listScopeRunIds (db : Database) (scopeKey : String) : List RunId :=
  (db.scopes.rows.filter fun e => e.2 == scopeKey).map Prod.fst

/-- The scope of the tree under a root run. -/
def treeRoot (db : Database) (rootId : RunId) (root : AgentRun) : TreeRoot :=
  let scopeKey := (db.scopes.get rootId).getD root.runtimeScopeId
  { uid := root.uid
    scopeKey := scopeKey
    scopeRunIds := listScopeRunIds db scopeKey }

/-- The filter of the query for the next generation. -/
def inTree (root : TreeRoot) (parentIds : List RunId) (runId : RunId) (run : AgentRun) : Bool :=
  run.createdByRunId.any (parentIds.contains ·) && run.uid == root.uid &&
    (run.runtimeScopeId == root.scopeKey || root.scopeRunIds.contains runId) &&
    !run.status.isTerminal

/-- The active children of a generation, locked in creation order. -/
def activeChildren (db : Database) (root : TreeRoot) (parentIds : List RunId) :
    List (RunId × AgentRun) :=
  (db.runs.rows.filter fun e => inTree root parentIds e.1 e.2).insertionSort creationOrder

/-- Loop state of the walk. -/
structure TreeState where
  db : Database
  pendingParentIds : List RunId
  seenIds : List RunId
  cancelled : List (RunId × String)

/-- Stop one child of the tree. -/
def closeChild (db : Database) (childId : RunId) (child : AgentRun) (now : Time) : Database :=
  if child.notStarted then
    let child' := child.treeCancelled now
    ((db.setRun childId child').projectInputDeliveryStatus child').closeOpenAttempts childId
      .cancelled child'.errorType child'.errorMessage now
  else db.setRun childId (child.treeCancelAsked now)

/-- Body of the inner loop. -/
def treeVisit (now : Time) (st : TreeState) (e : RunId × AgentRun) : TreeState :=
  if st.seenIds.contains e.1 then st
  else
    { db := closeChild st.db e.1 e.2 now
      pendingParentIds := st.pendingParentIds ++ [e.1]
      seenIds := e.1 :: st.seenIds
      cancelled := st.cancelled ++ [(e.1, e.2.conversationThreadId)] }

/-- One round of the outer loop: the children of the current frontier. -/
def treeRound (root : TreeRoot) (now : Time) (st : TreeState) : TreeState :=
  (activeChildren st.db root st.pendingParentIds).foldl (treeVisit now)
    { st with pendingParentIds := [] }

/-- The outer loop with a bound on its rounds; a round that goes on has closed a run. -/
def treeLoop (root : TreeRoot) (now : Time) : Nat → TreeState → TreeState
  | 0, st => st
  | fuel + 1, st =>
    if st.pendingParentIds = [] then st
    else treeLoop root now fuel (treeRound root now st)

/-- The start of the walk below a root. -/
def treeStart (db : Database) (rootId : RunId) : TreeState where
  db := db
  pendingParentIds := [rootId]
  seenIds := []
  cancelled := []

/-- `cancel_active_execution_tree_descendants`: request every active descendant
of a top-level run to stop, and return the runs it touched. -/
def cancelActiveExecutionTreeDescendants (db : Database) (rootId : RunId) (root : AgentRun)
    (now : Time) : List (RunId × String) × Database :=
  if root.runType = .subagent then ([], db)
  else
    let st := treeLoop (treeRoot db rootId root) now (db.runs.rows.length + 2)
      (treeStart db rootId)
    (st.cancelled, st.db)

/-! ## Cancellation and reconciliation -/

def requestCancelLocked (db : Database) (runId : RunId) (run : AgentRun) (now : Time) :
    Database :=
  if run.status.isTerminal then db
  else if run.notStarted then
    let run' := run.cancelledBeforeStart now
    (db.setRun runId run').projectInputDeliveryStatus run'
  else db.setRun runId (run.cancelAsked now)

/-- `request_cancel_execution_tree`; `treeNow` is the clock reading of the walk. -/
def requestCancelExecutionTree (db : Database) (runId : RunId) (uid : String)
    (cascadeDescendants : Bool) (now treeNow : Time) :
    Option AgentRun × List RunId × Database :=
  match (db.runs.get runId).filter fun run => run.uid == uid with
  | none => (none, [], db)
  | some run =>
    let db₁ := requestCancelLocked db runId run now
    if cascadeDescendants then
      let closed := cancelActiveExecutionTreeDescendants db₁ runId run treeNow
      (db₁.runs.get runId, runId :: closed.1.map Prod.fst, closed.2)
    else (db₁.runs.get runId, [runId], db₁)

def leaseMissingOrExpired (run : AgentRun) (now : Time) : Bool :=
  !leaseLive run.leaseExpiresAt now

/-- The query of `reconcile_expired_leases`. -/
def lostOwner (run : AgentRun) (now : Time) : Bool :=
  (run.status == .running && leaseMissingOrExpired run now) ||
    (run.status == .cancelRequested && run.workerId.isSome && leaseMissingOrExpired run now) ||
    (run.status == .cancelRequested && run.workerId.isNone && run.startedAt.isSome)

/-- Loop state of the reconciliation. -/
structure ReconcileState where
  db : Database
  reconciledRuns : List RunId
  cancelledDescendants : List (RunId × String)

/-- Body of the reconciliation loop; `treeNow` gives the clock reading of the walk
below each run. -/
def reconcileVisit (now : Time) (treeNow : RunId → Time) (st : ReconcileState)
    (runId : RunId) : ReconcileState :=
  match st.db.runs.get runId with
  | none => st
  | some run =>
    if run.status.isTerminal then st
    else
      let run' := run.leaseLost now
      let db₁ := (((st.db.setRun runId run').projectInputDeliveryStatus
        run').closeRunningAudits runId .abandoned now false).closeOpenAttempts runId
          .leaseExpired (some "worker_lease_expired")
          (some "执行 worker 的 lease 已过期；本次运行结果未知。") now
      let closed := cancelActiveExecutionTreeDescendants db₁ runId run' (treeNow runId)
      { db := closed.2
        reconciledRuns := st.reconciledRuns ++ [runId]
        cancelledDescendants := st.cancelledDescendants ++ closed.1 }

/-- The locked rows in the order of the loop: `scan` is the order in which
PostgreSQL visits the rows it could lock, and runs without a creator come first. -/
def reconcileOrder (db : Database) (scan : List RunId) (now : Time) : List RunId :=
  let runs := scan.filter fun runId => (db.runs.get runId).any fun run => lostOwner run now
  let hasCreator := fun runId => (db.runs.get runId).any fun run => run.createdByRunId.isSome
  (runs.filter fun runId => !hasCreator runId) ++ runs.filter hasCreator

/-- `reconcile_expired_leases`; rows outside `scan` are locked elsewhere and
skipped. -/
def reconcileExpiredLeases (db : Database) (scan : List RunId) (now : Time)
    (treeNow : RunId → Time) : ReconcileState :=
  (reconcileOrder db scan now).foldl (reconcileVisit now treeNow)
    { db := db, reconciledRuns := [], cancelledDescendants := [] }

/-- Body of the loop of `fail_nonterminal_for_storage_migration`. -/
def migrateVisit (now : Time) (db : Database) (e : RunId × AgentRun) : Database :=
  let run' := e.2.storageMigrated now
  (((db.setRun e.1 run').projectInputDeliveryStatus run').closeRunningAudits e.1 .abandoned
      now false).closeOpenAttempts e.1 .failed run'.errorType run'.errorMessage now

def failNonterminalForStorageMigration (db : Database) (now : Time) : List RunId × Database :=
  let runs := (db.runs.rows.filter fun e => !e.2.status.isTerminal).insertionSort creationOrder
  (runs.map Prod.fst, runs.foldl (migrateVisit now) db)

end Yuanlei.AgentRunRepository
