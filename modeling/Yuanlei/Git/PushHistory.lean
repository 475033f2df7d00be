import Yuanlei.Git.WorktreeLifecycle

/-!
# The push history of a worktree

The generations of one row, one operation after the other, and the branches that they leave behind.
A push reaches the remote before its commit, the bare repository keeps the branch of a worktree that
is removed, and a request with another intent forgets the commit that was pushed.  Nobody else
writes the branches of the task on the remote.

Main results:

- `HistoryInv`: what is recorded agrees with the branches that are there.
- `history_unblocked`: after every run whose steps meet the conditions the next
  preparation is not refused, and starts at the base of its generation.
-/

namespace Yuanlei.ProjectGit

/-! ## The system -/

structure TaskHistory where
  row : Option ProjectGitWorktree
  directory : Option Directory
  /-- The branches of the task on the remote. -/
  remote : String → Option String
  /-- The branches of the bare repository. -/
  refs : String → Option String
  /-- The request of a generation that is not prepared yet has changed the base branch. -/
  rebased : Bool

def TaskHistory.initial : TaskHistory where
  row := none
  directory := none
  remote := fun _ => none
  refs := fun _ => none
  rebased := false

/-- The worker, the time, the end of its lease, and the commit of the base branch on the remote. -/
structure PrepareCall where
  owner : String
  now : Time
  expiresAt : Time
  baseSha : String

inductive PrepareEnd where
  | committed
  /-- The worktree has been added and the commit fails. -/
  | notCommitted
  | remoteFails
  /-- The worker stops between its transactions. -/
  | interrupted
deriving DecidableEq

inductive HistoryAction where
  /-- A request that `_request_worktree_allocation` neither rejects for its texts nor
  replays. -/
  | request (a : AllocationRequest)
  | prepare (call : PrepareCall) (ending : PrepareEnd)
  /-- A run changes the directory. -/
  | work (directory : Directory)
  /-- `push_commit` succeeds; the transaction around it may fail. -/
  | push (expectedHeadSha : String) (commits : Bool)
  /-- `cleanup_project_worktree_view` -/
  | requestCleanup
  /-- `_cleanup_project_worktree` -/
  | cleanup

variable (naming : Naming) (repository : ProjectGitRepository) (uid runtimeScopeId : String)

/-- `_ensure_worktree`: a branch of the bare repository is checked out where it is. -/
def TaskHistory.checkout (st : TaskHistory) (worktree : ProjectGitWorktree) (baseSha : String) :
    Directory :=
  st.directory.getD
    { branch := worktree.branchName
      clean := true
      headSha := (st.refs worktree.branchName).getD baseSha }

/-- A head of the bare repository. -/
def TaskHistory.setHead (st : TaskHistory) (directory : Directory) : TaskHistory :=
  { st with
    directory := some directory
    refs := Function.update st.refs directory.branch (some directory.headSha) }

/-- The first transaction of `_prepare_repository_worktree`. -/
def TaskHistory.lease (st : TaskHistory) (call : PrepareCall) : Except GitError LeaseOutcome :=
  match st.row with
  | none => .error (.selection "Task repository was not selected")
  | some worktree =>
    leaseRow naming repository worktree uid runtimeScopeId call.owner
      (st.directory.map Directory.branch) call.now call.expiresAt

/-- The second transaction, with the branches that the remote has. -/
def TaskHistory.finish (st : TaskHistory) (leased : ProjectGitWorktree) (call : PrepareCall) :
    Except GitError TaskHistory :=
  let directory := st.checkout leased (leased.baseSha.getD call.baseSha)
  match finishRow leased call.owner
      { baseSha := call.baseSha
        remoteBranchSha := st.remote leased.branchName
        headSha := directory.headSha } with
  | .error e => .error e
  | .ok next =>
    if directory.branch ≠ leased.branchName then
      .error (.execution "existing worktree is bound to another branch")
    else .ok { st.setHead directory with row := some next, rebased := false }

/-- `_prepare_repository_worktree`, when the remote answers. -/
def prepareRepositoryWorktree (st : TaskHistory) (call : PrepareCall) :
    Except GitError TaskHistory :=
  match st.lease naming repository uid runtimeScopeId call with
  | .error e => .error e
  | .ok .alreadyReady => .ok st
  | .ok (.leased leased) => st.finish leased call

def TaskHistory.write (st : TaskHistory) (next : ProjectGitWorktree) : TaskHistory :=
  { st with row := some next }

def TaskHistory.prepare (st : TaskHistory) (call : PrepareCall) (ending : PrepareEnd) :
    TaskHistory :=
  match st.lease naming repository uid runtimeScopeId call with
  | .ok (.leased leased) =>
    match ending, st.finish leased call with
    | .interrupted, _ => st.write leased
    | .committed, .ok next => next
    | .notCommitted, .ok _ =>
      (st.setHead (st.checkout leased (leased.baseSha.getD call.baseSha))).write
        (failRow leased call.owner)
    | _, _ => st.write (failRow leased call.owner)
  | _ => st

/-- A transaction on the row that is there. -/
def TaskHistory.onRow (st : TaskHistory) (f : ProjectGitWorktree → TaskHistory) : TaskHistory :=
  match st.row with
  | none => st
  | some worktree => f worktree

/-- One operation. -/
def historyStep (st : TaskHistory) : HistoryAction → TaskHistory
  | .request a =>
    { st with
      row := requestRow naming repository st.row a
      rebased :=
        match st.row with
        | some worktree =>
          if worktree.status = .removed then worktree.intent.baseBranch != a.intent.baseBranch
          else st.rebased
        | none => false }
  | .prepare call ending => st.prepare naming repository uid runtimeScopeId call ending
  | .work directory => if st.directory.isSome then st.setHead directory else st
  | .push expectedHeadSha commits => st.onRow fun worktree =>
    if worktree.status = .ready ∧ st.directory = some
        { branch := worktree.branchName, clean := true, headSha := expectedHeadSha } then
      let pushed :=
        { st with
          remote := Function.update st.remote worktree.branchName (some expectedHeadSha) }
      if commits then
        pushed.write
          { worktree with
            lastObservedHeadSha := some expectedHeadSha
            lastPushedSha := some expectedHeadSha }
      else pushed
    else st
  | .requestCleanup => st.onRow fun worktree =>
    if worktree.status = .removed ∨ pushedProgress worktree st.directory = false then st
    else st.write { worktree with status := .cleanupPending, lastErrorCode := none }
  | .cleanup => st.onRow fun worktree =>
    if worktree.toClean ∧ pushedProgress worktree st.directory = true then
      { st with row := some (worktree.reset .removed), directory := none }
    else st

/-! ## Conditions -/

/-- A request for a row that was removed finds its branch on the remote only where the row has
recorded it for the same intent, and in the bare repository only if the base stays; a preparation
for another base does not fail after it has added the worktree. -/
def historyMeets (st : TaskHistory) : HistoryAction → Bool
  | .request a => st.row.all fun worktree =>
    let branch := naming.branch a.intent a.uid a.runtimeScopeId
    worktree.status != .removed ||
      (st.remote branch == none ||
        (allocationIntentMatches worktree a.intent branch &&
          st.remote branch == worktree.lastPushedSha)) &&
      (worktree.intent.baseBranch == a.intent.baseBranch || st.refs branch == none)
  | .prepare _ ending => ending != .notCommitted || !st.rebased
  | _ => true

/-- The next preparation is not refused for the history of the branch, and the worktree that it
leaves after a change of the base branch is at the commit that is frozen. -/
def Unblocked (st : TaskHistory) : Prop :=
  ∀ call,
    prepareRepositoryWorktree naming repository uid runtimeScopeId st call ≠
        .error (.execution "remote task branch belongs to another allocation history") ∧
      ∀ st', prepareRepositoryWorktree naming repository uid runtimeScopeId st call = .ok st' →
        st.rebased = true → ∃ worktree directory, st'.row = some worktree ∧
          st'.directory = some directory ∧ worktree.baseSha = some directory.headSha

/-! ## The invariant -/

/-- A preparation may follow without a request for a new generation. -/
def ProjectGitWorktree.toPrepare (worktree : ProjectGitWorktree) : Prop :=
  worktree.status ∈ [.requested, .preparing, .prepareFailed]

structure HistoryInv (st : TaskHistory) : Prop where
  unused : st.row = none → st.remote = (fun _ => none) ∧ st.directory = none
  recorded : ∀ worktree, st.row = some worktree → worktree.toPrepare →
    ∀ sha, st.remote worktree.branchName = some sha → worktree.lastPushedSha = some sha
  ready : ∀ worktree, st.row = some worktree → worktree.status = .ready →
    st.directory.isSome = true ∧ st.rebased = false
  removed : ∀ worktree, st.row = some worktree → worktree.status = .removed → st.directory = none
  fresh : ∀ worktree, st.row = some worktree → st.rebased = true →
    st.directory = none ∧ st.refs worktree.branchName = none

theorem historyInv_initial : HistoryInv .initial where
  unused := fun _ => ⟨rfl, rfl⟩
  recorded := fun _ h => nomatch h
  ready := fun _ h => nomatch h
  removed := fun _ h => nomatch h
  fresh := fun _ h => nomatch h

variable {naming repository uid runtimeScopeId}
variable {st : TaskHistory} {worktree next : ProjectGitWorktree}

theorem HistoryInv.of_row (hrow : st.row = some worktree)
    (hrecorded : worktree.toPrepare → ∀ sha, st.remote worktree.branchName = some sha →
      worktree.lastPushedSha = some sha)
    (hready : worktree.status = .ready → st.directory.isSome = true ∧ st.rebased = false)
    (hremoved : worktree.status = .removed → st.directory = none)
    (hfresh : st.rebased = true → st.directory = none ∧ st.refs worktree.branchName = none) :
    HistoryInv st := by
  have hsame : ∀ {row}, st.row = some row → row = worktree := by
    intro row hother
    exact Option.some.inj (hother.symm.trans hrow)
  constructor
  · intro hnone
    rw [hrow] at hnone
    cases hnone
  · exact fun row hother => hsame hother ▸ hrecorded
  · exact fun row hother => hsame hother ▸ hready
  · exact fun row hother => hsame hother ▸ hremoved
  · exact fun row hother => hsame hother ▸ hfresh

theorem HistoryInv.write (h : HistoryInv st) (hrow : st.row = some worktree)
    (hbranch : next.branchName = worktree.branchName)
    (hpushed : next.lastPushedSha = worktree.lastPushedSha)
    (hprepare : next.toPrepare → worktree.toPrepare)
    (hstatus : next.status ≠ .ready ∧ next.status ≠ .removed) : HistoryInv (st.write next) := by
  refine .of_row rfl ?_ (fun hready => absurd hready hstatus.1)
    (fun hremoved => absurd hremoved hstatus.2) ?_
  · intro hto sha hsha
    rw [hpushed]
    exact h.recorded worktree hrow (hprepare hto) sha (hbranch ▸ hsha)
  · rw [hbranch]
    exact h.fresh worktree hrow

variable {call : PrepareCall}

theorem HistoryInv.of_lease (h : HistoryInv st)
    (hlease : st.lease naming repository uid runtimeScopeId call = .ok (.leased next)) :
    ∃ worktree, st.row = some worktree ∧ worktree.toPrepare ∧
      next = worktree.leased call.owner call.expiresAt := by
  unfold TaskHistory.lease at hlease
  cases hrow : st.row with
  | none => simp [hrow] at hlease
  | some worktree =>
    simp only [hrow] at hlease
    rcases leaseRow_eq_ok hlease with ⟨heq, -⟩ | ⟨heq, hstatus, hgone, -⟩
    · cases heq
    · cases heq
      refine ⟨worktree, rfl, ?_, rfl⟩
      have hready : worktree.status ≠ .ready := by
        -- A ready row has its directory, and the transaction ends there.
        intro hready
        have hsome := (h.ready worktree hrow hready).1
        simp [Option.map_eq_none_iff.mp (hgone hready)] at hsome
      simp only [List.mem_cons, List.not_mem_nil, or_false, hready] at hstatus
      simp only [ProjectGitWorktree.toPrepare, List.mem_cons]
      tauto

/-- The remote does not refuse the second transaction; what it leaves. -/
theorem HistoryInv.finish (h : HistoryInv st) {leased : ProjectGitWorktree}
    (hlease : st.lease naming repository uid runtimeScopeId call = .ok (.leased leased)) :
    st.finish leased call =
        .error (.execution "existing worktree is bound to another branch") ∨
      ∃ row, row.status = .ready ∧ row.baseSha = some (leased.baseSha.getD call.baseSha) ∧
        st.finish leased call =
          .ok
            { st.setHead (st.checkout leased (leased.baseSha.getD call.baseSha)) with
              row := some row
              rebased := false } := by
  obtain ⟨worktree, hrow, hto, rfl⟩ := h.of_lease hlease
  unfold TaskHistory.finish
  simp only
  split
  · next e hfinish =>
    unfold finishRow at hfinish
    split at hfinish
    · next howner => exact absurd rfl howner
    · split at hfinish
      · next hrefused =>
        obtain ⟨sha, hsha⟩ := Option.isSome_iff_exists.mp hrefused.1
        have hrecorded := h.recorded worktree hrow hto sha hsha
        exact absurd (hrecorded.trans hsha.symm) hrefused.2
      · cases hfinish
  · next row hfinish =>
    obtain ⟨-, hnext⟩ := finishRow_eq_ok hfinish
    split
    · exact .inl rfl
    · exact .inr ⟨row, by rw [hnext]; rfl, by rw [hnext], rfl⟩

/-- The first transaction does not look at the remote. -/
theorem lease_ne_execution (call : PrepareCall) (message : String) :
    st.lease naming repository uid runtimeScopeId call ≠ .error (.execution message) := by
  intro hlease
  unfold TaskHistory.lease leaseRow at hlease
  split at hlease
  · cases hlease
  · simp only at hlease
    split at hlease
    · cases hlease
    · split at hlease
      · cases hlease
      · split at hlease
        · split at hlease <;> cases hlease
        · split at hlease
          · cases hlease
          · split at hlease
            · cases hlease
            · split at hlease <;> cases hlease

theorem HistoryInv.unblocked (h : HistoryInv st) :
    Unblocked naming repository uid runtimeScopeId st := by
  intro call
  unfold prepareRepositoryWorktree
  split
  · next e hlease =>
    refine ⟨?_, fun _ hst => nomatch hst⟩
    intro herror
    cases herror
    exact lease_ne_execution call _ hlease
  · next hlease =>
    refine ⟨by simp, ?_⟩
    intro st' _ hrebased
    -- A ready row has no change of its base branch left.
    unfold TaskHistory.lease at hlease
    cases hrow : st.row with
    | none => simp [hrow] at hlease
    | some worktree =>
      simp only [hrow] at hlease
      rcases leaseRow_eq_ok hlease with ⟨-, hready, -⟩ | ⟨heq, -⟩
      · rw [(h.ready worktree hrow hready).2] at hrebased
        cases hrebased
      · cases heq
  · next leased hlease =>
    obtain ⟨worktree, hrow, -, rfl⟩ := h.of_lease hlease
    rcases h.finish hlease with hbound | ⟨row, -, hbase, hok⟩
    · rw [hbound]
      exact ⟨by simp, fun _ hst => nomatch hst⟩
    · rw [hok]
      refine ⟨by simp, ?_⟩
      intro st' hst hrebased
      cases hst
      obtain ⟨hdirectory, hrefs⟩ := h.fresh worktree hrow hrebased
      refine ⟨row, _, rfl, rfl, ?_⟩
      rw [hbase, TaskHistory.checkout, hdirectory, Option.getD_none]
      show _ = some ((st.refs worktree.branchName).getD _)
      rw [hrefs, Option.getD_none]

/-! ## Operations -/

theorem reallocated_branch (worktree : ProjectGitWorktree) (a : AllocationRequest)
    (branch : String) :
    (reallocated worktree a branch).branchName = branch ∧
      (allocationIntentMatches worktree a.intent branch = true →
        (reallocated worktree a branch).lastPushedSha = worktree.lastPushedSha) := by
  unfold reallocated
  by_cases hmatch : allocationIntentMatches worktree a.intent branch = true
  · have hbranch : worktree.branchName = branch := by
      simp only [allocationIntentMatches, Bool.and_eq_true, beq_iff_eq] at hmatch
      exact hmatch.2
    simp [hmatch, ProjectGitWorktree.reset, hbranch]
  · simp [hmatch]

section

variable (h : HistoryInv st)
include h

theorem HistoryInv.request (a : AllocationRequest)
    (hmeets : historyMeets naming st (.request a) = true) :
    HistoryInv (historyStep naming repository uid runtimeScopeId st (.request a)) := by
  cases hrow : st.row with
  | none =>
    simp only [historyStep, hrow, requestRow]
    refine .of_row rfl ?_ nofun nofun nofun
    intro _ sha hsha
    rw [(h.unused hrow).1] at hsha
    cases hsha
  | some worktree =>
    simp only [historyStep, hrow]
    rcases requestRow_some naming repository worktree a with
      ⟨hkept, hsame⟩ | ⟨next, hnext, ⟨hremoved, rfl⟩ | ⟨hfailed, rfl⟩⟩
    · rw [hsame, if_neg hkept]
      exact hrow ▸ h
    · obtain ⟨hstatus, -⟩ := reallocated_status worktree a
        (naming.branch a.intent a.uid a.runtimeScopeId)
      obtain ⟨hname, hpushed⟩ := reallocated_branch worktree a
        (naming.branch a.intent a.uid a.runtimeScopeId)
      simp only [historyMeets, hrow, Option.all_some, hremoved, bne_self_eq_false, Bool.false_or,
        Bool.and_eq_true, Bool.or_eq_true, beq_iff_eq] at hmeets
      obtain ⟨hremote, hrefs⟩ := hmeets
      rw [hnext, if_pos hremoved]
      refine .of_row rfl ?_ (by simp [hstatus]) (by simp [hstatus]) ?_
      · intro _ sha hsha
        rw [hname] at hsha
        rcases hremote with hnone | ⟨hmatch, hsame⟩
        · rw [hnone] at hsha
          cases hsha
        · rw [hpushed hmatch, ← hsame, hsha]
      · intro hrebased
        rw [hname]
        refine ⟨h.removed worktree hrow hremoved, hrefs.resolve_left ?_⟩
        simpa using hrebased
    · rw [hnext, if_neg (by simp [hfailed])]
      exact h.write hrow rfl rfl (fun _ => by simp [ProjectGitWorktree.toPrepare, hfailed])
        ⟨nofun, nofun⟩

theorem HistoryInv.failed (hrow : st.row = some worktree)
    (hto : worktree.toPrepare) (owner : String) (expiresAt : Time) :
    HistoryInv (st.write (failRow (worktree.leased owner expiresAt) owner)) := by
  have hfailed : failRow (worktree.leased owner expiresAt) owner =
      { (worktree.leased owner expiresAt).reset .prepareFailed with
        lastErrorCode := some "git_prepare_failed" } := if_pos rfl
  rw [hfailed]
  exact h.write hrow rfl rfl (fun _ => hto) ⟨nofun, nofun⟩

theorem HistoryInv.setHead (directory : Directory)
    (hrow : st.row = some worktree) (hremoved : worktree.status ≠ .removed)
    (hrebased : st.rebased = false) : HistoryInv (st.setHead directory) := by
  refine .of_row hrow (h.recorded worktree hrow) (fun _ => ⟨rfl, hrebased⟩)
    (fun hstatus => absurd hstatus hremoved) ?_
  intro htrue
  exact absurd (hrebased.symm.trans htrue) (by decide)

theorem HistoryInv.prepare (call : PrepareCall) (ending : PrepareEnd)
    (hmeets : historyMeets naming st (.prepare call ending) = true) :
    HistoryInv (st.prepare naming repository uid runtimeScopeId call ending) := by
  unfold TaskHistory.prepare
  split
  · next leased hlease =>
    obtain ⟨worktree, hrow, hto, rfl⟩ := h.of_lease hlease
    have hfailed := h.failed hrow hto call.owner call.expiresAt
    split
    · exact h.write hrow rfl rfl (fun _ => hto) ⟨nofun, nofun⟩
    · next next hok =>
      rcases h.finish hlease with hbound | ⟨row, hready, -, hnext⟩
      · rw [hbound] at hok
        cases hok
      · rw [hnext] at hok
        cases hok
        refine .of_row rfl ?_ (fun _ => ⟨rfl, rfl⟩) (by simp [hready]) nofun
        simp [ProjectGitWorktree.toPrepare, hready]
    · have hrebased : st.rebased = false := by simpa [historyMeets] using hmeets
      refine hfailed.setHead _ rfl ?_ hrebased
      simp [failRow, ProjectGitWorktree.leased, ProjectGitWorktree.reset]
    · exact hfailed
  · exact h

end

variable {a : HistoryAction}

theorem HistoryInv.step (h : HistoryInv st) (hmeets : historyMeets naming st a = true) :
    HistoryInv (historyStep naming repository uid runtimeScopeId st a) := by
  cases hrow : st.row with
  | none =>
    have hdirectory := (h.unused hrow).2
    cases a with
    | request a => exact h.request a hmeets
    | prepare call ending => exact h.prepare call ending hmeets
    | _ => simpa [historyStep, TaskHistory.onRow, hrow, hdirectory] using h
  | some worktree =>
    cases a with
    | request a => exact h.request a hmeets
    | prepare call ending => exact h.prepare call ending hmeets
    | work directory =>
      simp only [historyStep]
      split
      · next hsome =>
        refine h.setHead directory hrow ?_ ?_
        · intro hremoved
          simp [h.removed worktree hrow hremoved] at hsome
        · by_contra hrebased
          simp [(h.fresh worktree hrow (by simpa using hrebased)).1] at hsome
      · exact h
    | push expectedHeadSha commits =>
      simp only [historyStep, TaskHistory.onRow, hrow]
      split
      · next hready =>
        have hnot : ¬ worktree.toPrepare := by
          simp [ProjectGitWorktree.toPrepare, hready.1]
        have hkept := h.ready worktree hrow hready.1
        have hfresh := h.fresh worktree hrow
        split
        · exact .of_row rfl (fun hto => absurd hto hnot) (fun _ => hkept)
            (h.removed worktree hrow) hfresh
        · exact .of_row rfl (fun hto => absurd hto hnot) (fun _ => hkept)
            (h.removed worktree hrow) hfresh
      · exact h
    | requestCleanup =>
      simp only [historyStep, TaskHistory.onRow, hrow]
      split
      · exact h
      · exact h.write hrow rfl rfl (fun hto => by simp [ProjectGitWorktree.toPrepare] at hto)
          ⟨nofun, nofun⟩
    | cleanup =>
      simp only [historyStep, TaskHistory.onRow, hrow]
      split
      · have hfresh := h.fresh worktree hrow
        exact .of_row rfl (by simp [ProjectGitWorktree.toPrepare, ProjectGitWorktree.reset])
          nofun (fun _ => rfl) (fun hrebased => ⟨rfl, (hfresh hrebased).2⟩)
      · exact h

/-- In every run whose steps meet the conditions, the next preparation is not blocked. -/
theorem history_unblocked (naming : Naming) (repository : ProjectGitRepository)
    (uid runtimeScopeId : String) (as : List HistoryAction)
    (hmeets : Transition.Guarded (historyStep naming repository uid runtimeScopeId)
      (fun st a => historyMeets naming st a = true) .initial as) :
    Unblocked naming repository uid runtimeScopeId
      (Transition.exec (historyStep naming repository uid runtimeScopeId) .initial as) :=
  (Transition.exec_invariant_of_guarded _ (fun _ _ hG h => HistoryInv.step h hG)
    historyInv_initial hmeets).unblocked

/-! ## Sample runs -/

def historyRepository : ProjectGitRepository :=
  { sampleRepository with allowedBaseBranches := ["main", "release"] }

abbrev sampleHistory (as : List HistoryAction) : TaskHistory :=
  Transition.exec (historyStep sampleNaming historyRepository "u" "thread") .initial as

/-- A worktree is prepared, pushed and removed. -/
def pushedHistory : List HistoryAction :=
  [.request sampleAllocation, .prepare ⟨"worker", 0, 60, "b0"⟩ .committed,
    .work { branch := "codex/fix/login-2a76dcd4", clean := true, headSha := "c1" },
    .push "c1" true, .requestCleanup, .cleanup]

/-- The same task wants the same branch from another base. -/
def otherBase : AllocationRequest :=
  { sampleAllocation with
    requestId := some "r2"
    intent := { sampleAllocation.intent with baseBranch := "release" } }

/-- The branch that the task has pushed blocks its next generation. -/
theorem history_blocked :
    ¬ ∀ (naming : Naming) (repository : ProjectGitRepository) (uid runtimeScopeId : String)
      (as : List HistoryAction), Unblocked naming repository uid runtimeScopeId
        (Transition.exec (historyStep naming repository uid runtimeScopeId) .initial as) := by
  intro h
  have hnext := (h sampleNaming historyRepository "u" "thread"
    (pushedHistory ++ [.request otherBase]) ⟨"worker", 90, 150, "b1"⟩).1
  have hrefused : (prepareRepositoryWorktree sampleNaming historyRepository "u" "thread"
      (sampleHistory (pushedHistory ++ [.request otherBase])) ⟨"worker", 90, 150, "b1"⟩).map
        (fun _ => ()) =
      .error (.execution "remote task branch belongs to another allocation history") := by
    decide +kernel
  apply hnext
  generalize prepareRepositoryWorktree _ _ _ _ _ _ = result at hrefused
  cases result with
  | error e => exact congrArg _ (Except.error.inj hrefused)
  | ok st => cases hrefused

/-- A task resumes the branch that it has pushed, and then takes another branch from another
base. -/
def resumedHistory : List HistoryAction :=
  pushedHistory ++
    [.request { sampleAllocation with requestId := some "r3" },
      .prepare ⟨"worker", 90, 150, "b0"⟩ .committed, .requestCleanup, .cleanup,
      .request
        { otherBase with intent := { otherBase.intent with branchSlug := some "audit" } }]

theorem history_unblocked_resumed :
    Unblocked sampleNaming historyRepository "u" "thread" (sampleHistory resumedHistory) := by
  apply history_unblocked
  decide +kernel

end Yuanlei.ProjectGit
