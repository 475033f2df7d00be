import Yuanlei.Git.Worktrees
import Yuanlei.Queue.Dispatch

/-!
# The Git paths of a run

A user selects repositories for a conversation, the worker prepares them when it starts a run, and
the run lists, prepares and pushes worktrees with its tools.  All of them find a worktree under a
scope: the selection under the thread, the tools `list` and `prepare` under the column
`runtime_scope_id`, the start of the run and the push under `resolve_run_scope_key`.

Main results:

- `RootRun.scope_eq_thread`: two of the three scopes are the same.
- `run_git_paths_agree_iff`: they all are exactly if the run has no mapped scope.
-/

namespace Yuanlei.ProjectGit

/-! ## The paths -/

/-- The request of `select_conversation_git_repository_view`. -/
def selectionRequest (uid threadId requestId : String) (intent : Intent) (newId : String)
    (now : Time) : AllocationRequest where
  uid := uid
  runtimeScopeId := threadId
  requestId := some requestId
  selectionSource := .user
  requestedByRunId := none
  intent := intent
  explicitRetry := false
  newId := newId
  now := now

/-- The request of `prepare_project_git_worktree_for_run`. -/
def agentRequest (runId : RunId) (run : AgentRun) (intent : Intent) (newId : String) (now : Time) :
    AllocationRequest where
  uid := run.uid
  runtimeScopeId := run.runtimeScopeId
  requestId := none
  selectionSource := .agent
  requestedByRunId := some runId
  intent := intent
  explicitRetry := true
  newId := newId
  now := now

/-- The allocations that `prepare_selected_project_git_worktrees` prepares at the start of a
run. -/
def allocationsAtStart (db : Database) (git : GitTables) (runId : RunId) (run : AgentRun) :
    List (WorktreeKey × ProjectGitWorktree) :=
  git.listScopeWorktrees (resolveRunScopeKey db runId run) run.uid

/-- The allocations that were selected for a conversation. -/
def allocationsOfConversation (git : GitTables) (threadId uid : String) :
    List (WorktreeKey × ProjectGitWorktree) :=
  git.listScopeWorktrees threadId uid

/-- The dictionary of `list_project_git_repositories_for_run`; the last row of a repository
counts. -/
def allocationOf (allocations : List (WorktreeKey × ProjectGitWorktree)) (repositoryId : String) :
    Option ProjectGitWorktree :=
  (allocations.reverse.find? fun e => e.1.repositoryId == repositoryId).map Prod.snd

/-- `list_project_git_repositories_for_run` -/
def listRepositoriesForRun (git : GitTables) (run : AgentRun) (projectId : String) :
    List (String × ProjectGitRepository × Option ProjectGitWorktree) :=
  let allocations := git.listScopeWorktrees run.runtimeScopeId run.uid
  ((git.repositories.rows.filter fun e => e.2.projectId == projectId && e.2.uid == run.uid).map
    fun e => (e.1, e.2, allocationOf allocations e.1)).filter
      fun e => e.2.1.status != .disabled || e.2.2.isSome

/-- The row that `push_project_git_branch` looks up. -/
def pushWorktree (naming : Naming) (db : Database) (git : GitTables) (runId : RunId)
    (run : AgentRun) (projectId name : String) : Except GitError (String × ProjectGitWorktree) :=
  match git.getActiveBindingByAlias naming projectId run.uid name with
  | none => .error (.permission "Repository alias is not active for this Project")
  | some binding =>
    match (git.getWorktree binding.1 (resolveRunScopeKey db runId run) run.uid).filter
        fun worktree => worktree.status == .ready with
    | none => .error (.permission "Task worktree is not ready")
    | some worktree => .ok (binding.1, worktree)

/-- `prepare_project_git_worktree_for_run` reports a ready worktree: its directory was there, or
the second transaction of the preparation has ended. -/
inductive PreparedForRun (naming : Naming) (runId : RunId) (run : AgentRun) (repositoryId : String) :
    GitTables → ProjectGitWorktree → Prop where
  | alreadyReady {git git' : GitTables} {worktree : ProjectGitWorktree} {directory : Option String}
      {now expiresAt : Time}
      (hlease : leaseWorktree naming git repositoryId run.uid run.runtimeScopeId ("tool:" ++ runId)
        directory now expiresAt = .ok (.alreadyReady, git'))
      (hrow : git.getWorktree repositoryId run.runtimeScopeId run.uid = some worktree) :
      PreparedForRun naming runId run repositoryId git' worktree
  | finished {git git' : GitTables} {worktree : ProjectGitWorktree} {fetched : FetchedState}
      (hfinish : finishWorktree git repositoryId run.uid run.runtimeScopeId ("tool:" ++ runId)
        fetched = .ok (worktree, git')) :
      PreparedForRun naming runId run repositoryId git' worktree

/-! ## Runs -/

/-- A root run that is running. -/
structure RootRun (db : Database) where
  id : RunId
  row : AgentRun
  stored : db.runs.get id = some row
  topLevel : row.runType.isTopLevel = true
  running : row.status = .running
  /-- `ck_agent_runs_nonterminal_shape` -/
  shape : row.shapeOk = true

namespace RootRun

variable {db : Database} (r : RootRun db)

/-- The check constraint ties the scope of a root run to its thread. -/
theorem scope_eq_thread :
    r.row.runtimeScopeId = r.row.conversationThreadId ∧ r.row.runtimeScopeId ≠ "" := by
  have hshape := r.shape
  have htop := r.topLevel
  unfold AgentRun.shapeOk at hshape
  rw [r.running] at hshape
  cases htype : r.row.runType with
  | chat => simp_all [RunStatus.isTerminal]
  | resume => simp_all [RunStatus.isTerminal]
  | subagent => simp [htype, RunType.isTopLevel] at htop

/-- The run has no mapped scope, or one that is its thread. -/
def Unmapped (r : RootRun db) : Prop :=
  ∀ scopeKey, db.scopes.get r.id = some scopeKey →
    scopeKey = "" ∨ scopeKey = r.row.conversationThreadId

theorem resolveRunScopeKey_eq_iff :
    resolveRunScopeKey db r.id r.row = r.row.runtimeScopeId ↔ r.Unmapped := by
  obtain ⟨hthread, hne⟩ := r.scope_eq_thread
  unfold resolveRunScopeKey Unmapped
  cases hscope : db.scopes.get r.id with
  | none => simp [hne]
  | some scopeKey =>
    by_cases hempty : scopeKey = ""
    · simp [hempty, hne]
    · simp [hempty, hthread]

/-- The run sees the worktrees of its conversation, and pushes those that its tools report. -/
structure PathsAgree (naming : Naming) (r : RootRun db) : Prop where
  start : ∀ git : GitTables, allocationsAtStart db git r.id r.row =
    allocationsOfConversation git r.row.conversationThreadId r.row.uid
  list : ∀ (git : GitTables) (projectId name repositoryId : String)
    (repository : ProjectGitRepository) (worktree : ProjectGitWorktree),
    git.getActiveBindingByAlias naming projectId r.row.uid name = some (repositoryId, repository) →
    (repositoryId, repository, some worktree) ∈ listRepositoriesForRun git r.row projectId →
    worktree.status = .ready →
    pushWorktree naming db git r.id r.row projectId name = .ok (repositoryId, worktree)
  prepare : ∀ (git : GitTables) (projectId name repositoryId : String)
    (repository : ProjectGitRepository) (worktree : ProjectGitWorktree),
    git.getActiveBindingByAlias naming projectId r.row.uid name = some (repositoryId, repository) →
    PreparedForRun naming r.id r.row repositoryId git worktree →
    pushWorktree naming db git r.id r.row projectId name = .ok (repositoryId, worktree)

end RootRun

/-! ## Lookups under one scope -/

variable {git : GitTables} {runtimeScopeId uid : String}

theorem mem_listScopeWorktrees {e : WorktreeKey × ProjectGitWorktree} :
    e ∈ git.listScopeWorktrees runtimeScopeId uid ↔
      git.worktrees.get e.1 = some e.2 ∧ e.1.runtimeScopeId = runtimeScopeId ∧ e.2.uid = uid ∧
        e.2.status ≠ .removed := by
  unfold GitTables.listScopeWorktrees
  rw [(List.perm_insertionSort _ _).mem_iff, List.mem_filter, ← Table.mem_rows_iff]
  simp [and_assoc]

variable {repositoryId : String} {worktree : ProjectGitWorktree}

/-- The row that the list reports is the row of the key. -/
theorem getWorktree_of_allocationOf
    (h : allocationOf (git.listScopeWorktrees runtimeScopeId uid) repositoryId = some worktree) :
    git.getWorktree repositoryId runtimeScopeId uid = some worktree := by
  obtain ⟨e, hfind, rfl⟩ := Option.map_eq_some_iff.mp h
  have hrepository := List.find?_some hfind
  have hmem := mem_listScopeWorktrees.mp (List.mem_reverse.mp (List.mem_of_find?_eq_some hfind))
  obtain ⟨hget, hscope, huid, -⟩ := hmem
  have hkey : e.1 = { repositoryId := repositoryId, runtimeScopeId := runtimeScopeId } := by
    cases hk : e.1
    simp_all
  unfold GitTables.getWorktree
  rw [← hkey, hget]
  simp [huid]

variable {naming : Naming} {runId : RunId} {run : AgentRun}

theorem getWorktree_of_prepared (h : PreparedForRun naming runId run repositoryId git worktree) :
    git.getWorktree repositoryId run.runtimeScopeId run.uid = some worktree ∧
      worktree.status = .ready := by
  cases h with
  | alreadyReady hlease hrow =>
    unfold leaseWorktree at hlease
    split at hlease
    · cases hlease
    · rw [hrow] at hlease
      simp only at hlease
      obtain ⟨outcome, houtcome, heq⟩ := Exceptions.map_eq_ok.mp hlease
      rcases leaseRow_eq_ok houtcome with ⟨rfl, hready, -⟩ | ⟨rfl, -, -⟩
      · cases heq
        exact ⟨hrow, hready⟩
      · cases heq
  | finished hfinish =>
    unfold finishWorktree at hfinish
    split at hfinish
    · cases hfinish
    · next before hbefore =>
      obtain ⟨next, hnext, heq⟩ := Exceptions.map_eq_ok.mp hfinish
      cases heq
      obtain ⟨-, hnext⟩ := finishRow_eq_ok hnext
      have huid : worktree.uid = run.uid := by
        have hbefore := uid_of_getWorktree hbefore
        rw [hnext]
        exact hbefore
      exact ⟨getWorktree_upsert huid, by rw [hnext]; rfl⟩

variable {db : Database}

theorem pushWorktree_eq_ok {projectId name : String} {repository : ProjectGitRepository}
    (hbinding : git.getActiveBindingByAlias naming projectId run.uid name =
      some (repositoryId, repository))
    (hrow : git.getWorktree repositoryId (resolveRunScopeKey db runId run) run.uid = some worktree)
    (hready : worktree.status = .ready) :
    pushWorktree naming db git runId run projectId name = .ok (repositoryId, worktree) := by
  unfold pushWorktree
  rw [hbinding]
  simp [hrow, Option.filter, hready]

/-! ## Agreement -/

/-- A row of a repository under a scope, and nothing else. -/
def singleTable (repositoryId runtimeScopeId : String) (worktree : ProjectGitWorktree) :
    GitTables where
  repositories := .empty
  worktrees := Table.empty.upsert
    { repositoryId := repositoryId, runtimeScopeId := runtimeScopeId } worktree

theorem mem_singleTable {scope : String} (huid : worktree.uid = uid)
    (hstatus : worktree.status ≠ .removed) :
    ({ repositoryId := repositoryId, runtimeScopeId := scope }, worktree) ∈
      (singleTable repositoryId scope worktree).listScopeWorktrees runtimeScopeId uid ↔
        scope = runtimeScopeId := by
  rw [mem_listScopeWorktrees]
  simp [singleTable, Table.get_upsert, huid, hstatus]

/-- A worktree that the user selects for the thread must be found by the start of the run. -/
theorem RootRun.PathsAgree.unmapped {r : RootRun db} (h : r.PathsAgree naming) : r.Unmapped := by
  obtain ⟨hthread, -⟩ := r.scope_eq_thread
  rw [← r.resolveRunScopeKey_eq_iff]
  obtain ⟨worktree, huid, hstatus⟩ : ∃ worktree : ProjectGitWorktree,
      worktree.uid = r.row.uid ∧ worktree.status ≠ .removed :=
    ⟨newWorktree naming
      { projectId := "", uid := r.row.uid, name := "", status := .active, directoryName := "",
        defaultBranch := "", allowedBaseBranches := [] }
      (selectionRequest r.row.uid r.row.conversationThreadId ""
        { baseBranch := "", branchKind := "", branchSlug := none, taskPurpose := "" } "" 0),
      rfl, by simp [newWorktree]⟩
  have hselected := h.start (singleTable "" r.row.conversationThreadId worktree)
  rw [allocationsAtStart, allocationsOfConversation] at hselected
  have hmem : ({ repositoryId := "", runtimeScopeId := r.row.conversationThreadId }, worktree) ∈
      (singleTable "" r.row.conversationThreadId worktree).listScopeWorktrees
        r.row.conversationThreadId r.row.uid := (mem_singleTable huid hstatus).mpr rfl
  rw [← hselected, mem_singleTable huid hstatus] at hmem
  rw [hthread]
  exact hmem.symm

/-- The paths of a root run agree, whatever is allocated, exactly if the run has no mapped scope
other than its thread. -/
theorem run_git_paths_agree_iff (naming : Naming) (db : Database) (r : RootRun db) :
    r.PathsAgree naming ↔ r.Unmapped := by
  constructor
  · exact fun h => h.unmapped
  · intro hunmapped
    have hscope := r.resolveRunScopeKey_eq_iff.mpr hunmapped
    obtain ⟨hthread, -⟩ := r.scope_eq_thread
    constructor
    · intro git
      rw [allocationsAtStart, allocationsOfConversation, hscope, hthread]
    · intro git projectId name repositoryId repository worktree hbinding hmem hready
      obtain ⟨e, -, he⟩ := List.mem_map.mp (List.mem_filter.mp hmem).1
      obtain ⟨hrepository, -, hallocation⟩ : e.1 = repositoryId ∧ e.2 = repository ∧
          allocationOf (git.listScopeWorktrees r.row.runtimeScopeId r.row.uid) e.1 =
            some worktree := by simpa using he
      rw [hrepository] at hallocation
      apply pushWorktree_eq_ok hbinding _ hready
      rw [hscope]
      exact getWorktree_of_allocationOf hallocation
    · intro git projectId name repositoryId repository worktree hbinding hprepared
      obtain ⟨hrow, hready⟩ := getWorktree_of_prepared hprepared
      apply pushWorktree_eq_ok hbinding _ hready
      rw [hscope]
      exact hrow

/-- A running chat in a dedicated sandbox: dispatch has mapped the scope of its agent. -/
def dedicatedDatabase : Database :=
  bindRunScope
    { Database.empty with
      runs := Table.empty.upsert "run" { AgentRunRepository.CreateRun.row
            { runId := "run", conversationThreadId := "thread", agentSlug := "coder", uid := "u",
              requestId := "request", inputPayload := [] } 0 with
          status := .running } }
    "run" "agent-project:u:coder:p" "thread"

/-- The start of the run does not see what is selected for its conversation. -/
theorem run_git_paths_disagree :
    ¬ ∀ (naming : Naming) (db : Database) (r : RootRun db), r.PathsAgree naming := by
  intro h
  obtain ⟨row, hrow, htop, hrunning, hshape, hthread⟩ : ∃ row : AgentRun,
      dedicatedDatabase.runs.get "run" = some row ∧ row.runType.isTopLevel = true ∧
        row.status = .running ∧ row.shapeOk = true ∧ row.conversationThreadId = "thread" :=
    ⟨_, rfl, by decide, by decide, by decide, by decide⟩
  let r : RootRun dedicatedDatabase := ⟨"run", row, hrow, htop, hrunning, hshape⟩
  have hmapped : dedicatedDatabase.scopes.get "run" = some "agent-project:u:coder:p" := by
    decide +kernel
  have hunmapped : r.Unmapped :=
    (h ⟨fun _ _ => "", fun _ _ _ => "", fun _ _ => "", fun _ => true, id⟩ _ r).unmapped
  rcases hunmapped "agent-project:u:coder:p" hmapped with hempty | hsame
  · simp at hempty
  · rw [hthread] at hsame
    simp at hsame

end Yuanlei.ProjectGit
