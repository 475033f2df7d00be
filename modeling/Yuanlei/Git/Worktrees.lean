import Yuanlei.Lib.Exceptions
import Yuanlei.Storage.Business

/-!
# Worktrees of project repositories

A root task allocates a worktree in a repository of its project.  The row of the allocation goes
through requests, a lease of the worker that prepares the directory, pushes and a cleanup.  Each
function below is what one transaction does to the row, with what Git and the file system answer
as arguments.

The texts of a request are normalised before; the names that are derived from user and scope are a
parameter.

Main definitions:

- `ProjectGitWorktree`: the row of an allocation.
- `requestWorktreeAllocation`: select, or ask for a worktree from a run.
-/

namespace Yuanlei.ProjectGit

/-! ## Rows -/

inductive WorktreeStatus where
  | requested
  | preparing
  | ready
  | prepareFailed
  | cleanupPending
  | cleanupFailed
  | removed
deriving DecidableEq

inductive SelectionSource where
  | user
  | agent
  | legacy
deriving DecidableEq

inductive BindingStatus where
  | provisioning
  | active
  | provisionFailed
  | deleting
  | deleteFailed
  | disabled
deriving DecidableEq

/-- What a task wants from a repository, normalised. -/
structure Intent where
  baseBranch : String
  branchKind : String
  branchSlug : Option String
  taskPurpose : String
deriving DecidableEq

/-- The columns of `uq_project_git_worktrees_repository_scope`. -/
structure WorktreeKey where
  repositoryId : String
  runtimeScopeId : String
deriving DecidableEq

/-- A row of `project_git_worktrees` -/
structure ProjectGitWorktree where
  id : String
  projectId : String
  uid : String
  taskKey : String
  selectionSource : SelectionSource
  intent : Intent
  requestedByRunId : Option RunId
  allocationGeneration : Nat
  selectionRequestId : Option String
  branchName : String
  baseSha : Option String
  lastObservedHeadSha : Option String
  lastPushedSha : Option String
  relativePath : String
  status : WorktreeStatus
  leaseOwner : Option String
  leaseExpiresAt : Option Time
  lastErrorCode : Option String
  createdAt : Time
deriving DecidableEq

/-- A row of `project_git_repositories`, without its keys and its remote. -/
structure ProjectGitRepository where
  projectId : String
  uid : String
  name : String
  status : BindingStatus
  directoryName : String
  defaultBranch : String
  allowedBaseBranches : List String
deriving DecidableEq

structure GitTables where
  repositories : Table String ProjectGitRepository
  worktrees : Table WorktreeKey ProjectGitWorktree

inductive GitError where
  | http (status : Nat) (detail : String)
  | permission (message : String)
  | selection (message : String)
  | busy (message : String)
  | execution (message : String)
deriving DecidableEq

/-- `derive_task_key`, `derive_allocation_branch`, `repository_relative_paths`, the
branch prefix and `str.lower`. -/
structure Naming where
  taskKey : String → String → String
  branch : Intent → String → String → String
  relativePath : String → String → String
  allocated : String → Bool
  lower : String → String

/-! ## Lookups -/

namespace GitTables

def getWorktree (git : GitTables) (repositoryId runtimeScopeId uid : String) :
    Option ProjectGitWorktree :=
  (git.worktrees.get { repositoryId := repositoryId, runtimeScopeId := runtimeScopeId }).filter
    fun worktree => worktree.uid == uid

def listScopeWorktrees (git : GitTables) (runtimeScopeId uid : String) :
    List (WorktreeKey × ProjectGitWorktree) :=
  (git.worktrees.rows.filter fun e =>
    e.1.runtimeScopeId == runtimeScopeId && e.2.uid == uid && e.2.status != .removed).insertionSort
      fun e e' => e.2.createdAt ≤ e'.2.createdAt

def getActiveBindingByAlias (naming : Naming) (git : GitTables) (projectId uid name : String) :
    Option (String × ProjectGitRepository) :=
  git.repositories.rows.find? fun e =>
    e.2.projectId == projectId && e.2.uid == uid && naming.lower e.2.name == naming.lower name &&
      e.2.status == .active

def getWorktreeBySelectionRequest (git : GitTables) (requestId uid : String) :
    Option (WorktreeKey × ProjectGitWorktree) :=
  git.worktrees.rows.find? fun e => e.2.uid == uid && e.2.selectionRequestId == some requestId

end GitTables

/-! ## Requests -/

/-- The arguments of `_request_worktree_allocation`, and the id and the time of a new row. -/
structure AllocationRequest where
  uid : String
  runtimeScopeId : String
  requestId : Option String
  selectionSource : SelectionSource
  requestedByRunId : Option RunId
  intent : Intent
  explicitRetry : Bool
  newId : String
  now : Time

def allocationIntentMatches (worktree : ProjectGitWorktree) (intent : Intent) (branch : String) :
    Bool :=
  worktree.intent == intent && worktree.branchName == branch

/-- The lease is given up and the errors are cleared. -/
def ProjectGitWorktree.reset (worktree : ProjectGitWorktree) (status : WorktreeStatus) :
    ProjectGitWorktree :=
  { worktree with
    status := status
    leaseOwner := none
    leaseExpiresAt := none
    lastErrorCode := none }

/-- The row of a first request. -/
def newWorktree (naming : Naming) (repository : ProjectGitRepository) (a : AllocationRequest) :
    ProjectGitWorktree where
  id := a.newId
  projectId := repository.projectId
  uid := a.uid
  taskKey := naming.taskKey a.uid a.runtimeScopeId
  selectionSource := a.selectionSource
  intent := a.intent
  requestedByRunId := a.requestedByRunId
  allocationGeneration := 1
  selectionRequestId := a.requestId
  branchName := naming.branch a.intent a.uid a.runtimeScopeId
  baseSha := none
  lastObservedHeadSha := none
  lastPushedSha := none
  relativePath :=
    naming.relativePath repository.directoryName (naming.taskKey a.uid a.runtimeScopeId)
  status := .requested
  leaseOwner := none
  leaseExpiresAt := none
  lastErrorCode := none
  createdAt := a.now

/-- A row that was removed is used again under the next generation. -/
def reallocated (worktree : ProjectGitWorktree) (a : AllocationRequest) (branch : String) :
    ProjectGitWorktree :=
  let next :=
    { worktree.reset .requested with
      allocationGeneration := worktree.allocationGeneration + 1
      selectionSource := a.selectionSource
      requestedByRunId := a.requestedByRunId
      selectionRequestId := a.requestId }
  if allocationIntentMatches worktree a.intent branch then next
  else
    { next with
      intent := a.intent
      branchName := branch
      baseSha := none
      lastObservedHeadSha := none
      lastPushedSha := none }

/-- What a request does to the row that exists. -/
def requestExisting (worktree : ProjectGitWorktree) (a : AllocationRequest) (branch : String) :
    Except GitError ProjectGitWorktree :=
  if worktree.status = .removed then .ok (reallocated worktree a branch)
  else if !allocationIntentMatches worktree a.intent branch then
    .error (.http 409 "当前任务已为该仓库固定其他分支意图")
  else if worktree.status = .prepareFailed ∧ a.explicitRetry then
    .ok (worktree.reset .requested)
  else .ok worktree

/-- `_request_worktree_allocation`: the row that it returns, and the tables. -/
def requestWorktreeAllocation (naming : Naming) (git : GitTables) (repositoryId : String)
    (repository : ProjectGitRepository) (a : AllocationRequest) :
    Except GitError (ProjectGitWorktree × GitTables) :=
  let branch := naming.branch a.intent a.uid a.runtimeScopeId
  let key : WorktreeKey := { repositoryId := repositoryId, runtimeScopeId := a.runtimeScopeId }
  if a.intent.baseBranch ∉ repository.allowedBaseBranches then
    .error (.http 422 "base_branch 不在仓库允许列表")
  else if branch = a.intent.baseBranch ∨ branch = repository.defaultBranch then
    .error (.http 422 "任务分支不能等于 base/default branch")
  else
    match a.requestId.bind fun requestId => git.getWorktreeBySelectionRequest requestId a.uid with
    | some replay =>
      if replay.1 ≠ key then .error (.http 409 "request_id 已用于其他任务仓库")
      else if !allocationIntentMatches replay.2 a.intent branch then
        .error (.http 409 "request_id 已用于其他仓库意图")
      else .ok (replay.2, git)
    | none =>
      match git.getWorktree repositoryId a.runtimeScopeId a.uid with
      | none =>
        match git.worktrees.insert key (newWorktree naming repository a) with
        | none => .error (.http 409 "仓库 allocation 已并发创建")
        | some worktrees =>
          .ok (newWorktree naming repository a, { git with worktrees := worktrees })
      | some worktree =>
        (requestExisting worktree a branch).map fun next =>
          (next, { git with worktrees := git.worktrees.upsert key next })

/-! ## Preparing a worktree -/

/-- The constant `WORKTREE_LEASE_SECONDS` is a parameter of the lease. -/
def ProjectGitWorktree.leased (worktree : ProjectGitWorktree) (owner : String)
    (expiresAt : Time) : ProjectGitWorktree :=
  { worktree with
    leaseOwner := some owner
    leaseExpiresAt := some expiresAt
    status := .preparing }

/-- Another owner holds a lease that has not expired. -/
def ProjectGitWorktree.leasedByOther (worktree : ProjectGitWorktree) (owner : String)
    (now : Time) : Bool :=
  worktree.leaseOwner.any (fun holder => holder != "" && holder != owner) &&
    worktree.leaseExpiresAt.any fun expiresAt => now < expiresAt

/-- What the first transaction ends with. -/
inductive LeaseOutcome where
  /-- The directory of a ready worktree is there, on its branch. -/
  | alreadyReady
  | leased (worktree : ProjectGitWorktree)
deriving DecidableEq

/-- The first transaction of `_prepare_repository_worktree` on a row; `directory` is the
branch that is checked out, if the directory exists. -/
def leaseRow (naming : Naming) (repository : ProjectGitRepository) (worktree : ProjectGitWorktree)
    (uid runtimeScopeId owner : String) (directory : Option String) (now expiresAt : Time) :
    Except GitError LeaseOutcome :=
  let taskKey := naming.taskKey uid runtimeScopeId
  if worktree.taskKey ≠ taskKey ∨
      worktree.relativePath ≠ naming.relativePath repository.directoryName taskKey then
    .error (.busy "Task worktree identity does not match its root scope")
  else if worktree.branchName = worktree.intent.baseBranch ∨
      worktree.branchName = repository.defaultBranch ∨
      naming.allocated worktree.branchName = false then
    .error (.selection "Task worktree branch is not a valid allocation branch")
  else
    match worktree.status, directory with
    | .ready, some branch =>
      if branch ≠ worktree.branchName then
        .error (.busy "Task worktree branch changed outside its allocation")
      else .ok .alreadyReady
    | status, _ =>
      if status = .prepareFailed then
        .error (.selection "Task worktree requires explicit retry")
      else if status ∉ [.requested, .preparing, .ready] then
        .error (.selection "Task worktree is not preparable")
      else if worktree.leasedByOther owner now then
        .error (.busy "Task worktree is being prepared")
      else .ok (.leased (worktree.leased owner expiresAt))

/-- The first transaction of `_prepare_repository_worktree`. -/
def leaseWorktree (naming : Naming) (git : GitTables) (repositoryId uid runtimeScopeId owner : String)
    (directory : Option String) (now expiresAt : Time) :
    Except GitError (LeaseOutcome × GitTables) :=
  match (git.repositories.get repositoryId).filter fun r => r.uid == uid && r.status == .active with
  | none => .error (.busy "Project Git repository is not active")
  | some repository =>
    match git.getWorktree repositoryId runtimeScopeId uid with
    | none => .error (.selection "Task repository was not selected")
    | some worktree =>
      (leaseRow naming repository worktree uid runtimeScopeId owner directory now
        expiresAt).map fun outcome =>
        match outcome with
        | .alreadyReady => (.alreadyReady, git)
        | .leased next =>
          (.leased next,
            { git with
              worktrees := git.worktrees.upsert
                { repositoryId := repositoryId, runtimeScopeId := runtimeScopeId } next })

/-- What Git answers to the second transaction: the commit of the base branch, the commit of the
task branch on the remote, and the head of the directory. -/
structure FetchedState where
  baseSha : String
  remoteBranchSha : Option String
  headSha : String
deriving DecidableEq

/-- The second transaction of `_prepare_repository_worktree` on a row. -/
def finishRow (worktree : ProjectGitWorktree) (owner : String) (fetched : FetchedState) :
    Except GitError ProjectGitWorktree :=
  if worktree.leaseOwner ≠ some owner then .error (.busy "Task worktree lease was lost")
  else if fetched.remoteBranchSha.isSome ∧ worktree.lastPushedSha ≠ fetched.remoteBranchSha then
    .error (.execution "remote task branch belongs to another allocation history")
  else
    .ok
      { worktree.reset .ready with
        baseSha := some (worktree.baseSha.getD fetched.baseSha)
        lastObservedHeadSha := some fetched.headSha }

/-- The second transaction of `_prepare_repository_worktree`. -/
def finishWorktree (git : GitTables) (repositoryId uid runtimeScopeId owner : String)
    (fetched : FetchedState) : Except GitError (ProjectGitWorktree × GitTables) :=
  match git.getWorktree repositoryId runtimeScopeId uid with
  | none => .error (.busy "Task worktree lease was lost")
  | some worktree =>
    (finishRow worktree owner fetched).map fun next =>
      (next,
        { git with
          worktrees := git.worktrees.upsert
            { repositoryId := repositoryId, runtimeScopeId := runtimeScopeId } next })

/-- `_record_worktree_failure` on a row. -/
def failRow (worktree : ProjectGitWorktree) (owner : String) : ProjectGitWorktree :=
  if worktree.leaseOwner = some owner then
    { worktree.reset .prepareFailed with lastErrorCode := some "git_prepare_failed" }
  else worktree

/-! ## What the transactions have checked -/

variable {worktree : ProjectGitWorktree} {uid runtimeScopeId owner : String}

/-- A directory that is there belongs to a ready row; a lease is given to a row that is wanted and
that no other owner prepares. -/
theorem leaseRow_eq_ok {naming : Naming} {repository : ProjectGitRepository}
    {directory : Option String} {now expiresAt : Time} {outcome : LeaseOutcome}
    (h : leaseRow naming repository worktree uid runtimeScopeId owner directory now expiresAt =
      .ok outcome) :
    (outcome = .alreadyReady ∧ worktree.status = .ready ∧ directory = some worktree.branchName) ∨
      (outcome = .leased (worktree.leased owner expiresAt) ∧
        worktree.status ∈ [.requested, .preparing, .ready] ∧
        (worktree.status = .ready → directory = none) ∧
        worktree.leasedByOther owner now = false) := by
  unfold leaseRow at h
  simp only at h
  split at h
  · cases h
  · split at h
    · cases h
    · split at h
      · next branch hstatus =>
        split at h
        · cases h
        · next hbranch =>
          cases h
          exact .inl ⟨rfl, hstatus, by rw [not_not.mp hbranch]⟩
      · next hgone =>
        split at h
        · cases h
        · split at h
          · cases h
          · next hwanted =>
            split at h
            · cases h
            · next hfree =>
              cases h
              refine .inr ⟨rfl, not_not.mp hwanted, fun hready => ?_, by simpa using hfree⟩
              exact Option.eq_none_iff_forall_ne_some.mpr (hgone · hready)

/-- The second transaction has compared the owner. -/
theorem finishRow_eq_ok {next : ProjectGitWorktree} {fetched : FetchedState}
    (h : finishRow worktree owner fetched = .ok next) :
    worktree.leaseOwner = some owner ∧
      next =
        { worktree.reset .ready with
          baseSha := some (worktree.baseSha.getD fetched.baseSha)
          lastObservedHeadSha := some fetched.headSha } := by
  unfold finishRow at h
  split at h
  · cases h
  · next howner =>
    split at h
    · cases h
    · cases h
      exact ⟨not_not.mp howner, rfl⟩

variable {git : GitTables} {repositoryId : String}

/-- The row of a key after it was written. -/
theorem getWorktree_upsert (huid : worktree.uid = uid) :
    GitTables.getWorktree
      { git with
        worktrees := git.worktrees.upsert
          { repositoryId := repositoryId, runtimeScopeId := runtimeScopeId } worktree }
      repositoryId runtimeScopeId uid = some worktree := by
  simp [GitTables.getWorktree, Table.get_upsert, huid]

theorem uid_of_getWorktree (h : git.getWorktree repositoryId runtimeScopeId uid = some worktree) : worktree.uid = uid := by
  have hfilter := (Option.filter_eq_some_iff.mp h).2
  exact beq_iff_eq.mp hfilter

end Yuanlei.ProjectGit
