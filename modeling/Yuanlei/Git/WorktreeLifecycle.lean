import Yuanlei.Git.Worktrees
import Yuanlei.Lib.Transition

/-!
# The life of a worktree

One allocation with its directory, the runs of its scope, the workers that prepare it and the job
that cleans it up.  Every transaction holds the lock of the row.  A preparation takes two of them,
with the remote in between; the cleanup looks at runs and directory first and removes the directory
later in the same transaction, and runs start without looking at its lock.

Main results:

- `step_lifecycleInv`: a step that meets the conditions keeps it.
- `worktree_lifecycle_safe`: what a step of such a run can do.
-/

namespace Yuanlei.ProjectGit

/-! ## The system -/

structure Directory where
  branch : String
  clean : Bool
  headSha : String
deriving DecidableEq

/-- A worker between its two transactions: its id, the generation that it has leased and the end of
the lease. -/
structure Preparation where
  owner : String
  generation : Nat
  expiresAt : Time
deriving DecidableEq

structure LifecycleState where
  now : Time
  row : Option ProjectGitWorktree
  directory : Option Directory
  /-- The runs of the scope that have not ended. -/
  nonterminalRuns : Nat
  preparations : Nat → Option Preparation
  /-- The cleanup has checked and goes on to remove the directory. -/
  cleaning : Bool

def LifecycleState.initial : LifecycleState where
  now := 0
  row := none
  directory := none
  nonterminalRuns := 0
  preparations := fun _ => none
  cleaning := false

inductive LifecycleAction where
  /-- `_request_worktree_allocation`, from a user or from a run. -/
  | request (a : AllocationRequest)
  /-- `retry_conversation_git_repository_view` -/
  | retry
  | lease (w : Nat) (owner : String) (leaseSeconds : Int)
  | finish (w : Nat) (fetched : FetchedState)
  /-- `_record_worktree_failure`, after the remote or the second transaction has failed. -/
  | recordFailure (w : Nat)
  | push (expectedHeadSha : String)
  /-- `cleanup_project_worktree_view` -/
  | requestCleanup
  /-- `_cleanup_project_worktree` up to its last check. -/
  | checkCleanup
  /-- The directory is removed; `commits` is false if the job stops before its commit. -/
  | removeDirectory (commits : Bool)
  /-- The job stops after its checks. -/
  | abortCleanup
  | recordCleanupFailure
  | startRun
  | endRun
  /-- A run changes the directory. -/
  | work (directory : Directory)
  | tick (seconds : Nat)

variable (naming : Naming) (repository : ProjectGitRepository) (uid runtimeScopeId : String)

/-- What a request does to the row. -/
def requestRow (row : Option ProjectGitWorktree) (a : AllocationRequest) :
    Option ProjectGitWorktree :=
  match row with
  | none => some (newWorktree naming repository a)
  | some worktree =>
    match requestExisting worktree a (naming.branch a.intent a.uid a.runtimeScopeId) with
    | .error _ => some worktree
    | .ok next => some next

/-- The directory has no progress that is not pushed. -/
def pushedProgress (worktree : ProjectGitWorktree) : Option Directory → Bool
  | none => true
  | some directory => directory.clean && worktree.lastPushedSha == some directory.headSha

/-- `ensure_worktree`: a directory that exists is kept. -/
def ensureWorktree (worktree : ProjectGitWorktree) (fetched : FetchedState) :
    Option Directory → Directory
  | some directory => directory
  | none => { branch := worktree.branchName, clean := true, headSha := fetched.headSha }

/-- A transaction on the row, when nobody holds its lock. -/
def rowStep (st : LifecycleState) : LifecycleAction → LifecycleState
  | .request a => { st with row := requestRow naming repository st.row a }
  | .retry =>
    { st with
      row := st.row.map fun worktree =>
        if worktree.status = .prepareFailed then worktree.reset .requested else worktree }
  | .lease w owner leaseSeconds =>
    match st.row, st.preparations w with
    | some worktree, none =>
      match leaseRow naming repository worktree uid runtimeScopeId owner
          (st.directory.map Directory.branch) st.now (st.now + leaseSeconds) with
      | .ok (.leased next) =>
        { st with
          row := some next
          preparations := Function.update st.preparations w
            (some { owner := owner, generation := next.allocationGeneration,
                    expiresAt := st.now + leaseSeconds }) }
      | _ => st
    | _, _ => st
  | .finish w fetched =>
    match st.row, st.preparations w with
    | some worktree, some preparation =>
      match finishRow worktree preparation.owner fetched with
      | .error _ => st
      | .ok next =>
        { st with
          row := some next
          directory := some (ensureWorktree worktree fetched st.directory)
          preparations := Function.update st.preparations w none }
    | _, _ => st
  | .recordFailure w =>
    match st.preparations w with
    | none => st
    | some preparation =>
      { st with
        row := st.row.map fun worktree => failRow worktree preparation.owner
        preparations := Function.update st.preparations w none }
  | .push expectedHeadSha =>
    match st.row, st.directory with
    | some worktree, some directory =>
      if 0 < st.nonterminalRuns ∧ worktree.status = .ready ∧ directory.clean ∧
          directory.headSha = expectedHeadSha ∧ directory.branch = worktree.branchName then
        { st with
          row := some
            { worktree with
              lastObservedHeadSha := some expectedHeadSha
              lastPushedSha := some expectedHeadSha } }
      else st
    | _, _ => st
  | .requestCleanup =>
    match st.row with
    | none => st
    | some worktree =>
      if worktree.status = .removed ∨ 0 < st.nonterminalRuns ∨
          pushedProgress worktree st.directory = false then st
      else
        { st with
          row := some { worktree with status := .cleanupPending, lastErrorCode := none } }
  | .checkCleanup =>
    match st.row with
    | none => st
    | some worktree =>
      if worktree.status ∈ [.cleanupPending, .cleanupFailed] ∧ st.nonterminalRuns = 0 ∧
          pushedProgress worktree st.directory = true then
        { st with cleaning := true }
      else st
  | .recordCleanupFailure =>
    { st with
      row := st.row.map fun worktree =>
        if worktree.status ∈ [.cleanupPending, .cleanupFailed] then
          { worktree with status := .cleanupFailed, lastErrorCode := some "git_cleanup_failed" }
        else worktree }
  | _ => st

/-- One step of the system. -/
def lifecycleStep (st : LifecycleState) (a : LifecycleAction) : LifecycleState :=
  match a with
  | .removeDirectory commits =>
    if st.cleaning then
      { st with
        directory := none
        cleaning := false
        row := if commits then st.row.map fun worktree => worktree.reset .removed else st.row }
    else st
  | .abortCleanup => { st with cleaning := false }
  | .startRun => { st with nonterminalRuns := st.nonterminalRuns + 1 }
  | .endRun => { st with nonterminalRuns := st.nonterminalRuns - 1 }
  | .work directory =>
    if 0 < st.nonterminalRuns ∧ st.directory.isSome then
      { st with directory := some directory }
    else st
  | .tick seconds => { st with now := st.now + seconds }
  | a => if st.cleaning then st else rowStep naming repository uid runtimeScopeId st a

/-! ## Conditions -/

/-- A cleanup is requested for a row without a lease, workers in flight have different ids, a worker
finishes before its lease has expired, and no run starts between the checks of a cleanup and the
removal of the directory. -/
def LifecycleMeets (st : LifecycleState) : LifecycleAction → Prop
  | .requestCleanup => ∀ worktree, st.row = some worktree → worktree.leaseOwner = none
  | .lease _ owner _ => ∀ w preparation, st.preparations w = some preparation →
      preparation.owner ≠ owner
  | .finish w _ => ∀ preparation, st.preparations w = some preparation →
      st.now < preparation.expiresAt
  | .startRun => st.cleaning = false
  | _ => True

/-! ## The invariant -/

/-- The row is to be cleaned up. -/
def ProjectGitWorktree.toClean (worktree : ProjectGitWorktree) : Prop :=
  worktree.status ∈ [.cleanupPending, .cleanupFailed]

instance (worktree : ProjectGitWorktree) : Decidable worktree.toClean :=
  inferInstanceAs (Decidable (_ ∈ _))

structure LifecycleInv (st : LifecycleState) : Prop where
  /-- A lease with the id of a worker in flight is the lease that the worker took. -/
  lease : ∀ w p worktree, st.preparations w = some p → st.row = some worktree →
    worktree.leaseOwner = some p.owner →
      worktree.leaseExpiresAt = some p.expiresAt ∧ worktree.allocationGeneration = p.generation
  cleanup : ∀ worktree, st.row = some worktree → worktree.toClean → worktree.leaseOwner = none
  cleaning : st.cleaning = true → st.nonterminalRuns = 0 ∧
    ∃ worktree, st.row = some worktree ∧ worktree.toClean ∧
      pushedProgress worktree st.directory = true

theorem lifecycleInv_initial : LifecycleInv .initial where
  lease := fun _ _ _ h => nomatch h
  cleanup := fun _ h => nomatch h
  cleaning := fun h => nomatch h

/-- A write gives up the lease, or keeps it with its generation. -/
def LeaseKept (row : Option ProjectGitWorktree) (next : ProjectGitWorktree) : Prop :=
  next.leaseOwner = none ∨ ∃ worktree, row = some worktree ∧ next.leaseOwner = worktree.leaseOwner ∧
      next.leaseExpiresAt = worktree.leaseExpiresAt ∧
      next.allocationGeneration = worktree.allocationGeneration ∧
      (next.toClean → worktree.toClean ∨ worktree.leaseOwner = none)

theorem leaseKept_self (worktree : ProjectGitWorktree) : LeaseKept (some worktree) worktree :=
  .inr ⟨worktree, rfl, rfl, rfl, rfl, .inl⟩

section Steps

variable {naming repository uid runtimeScopeId}
variable {st st' : LifecycleState}

theorem LifecycleInv.write (h : LifecycleInv st) (hcleaning : st'.cleaning = false)
    (hpreparations : ∀ w p, st'.preparations w = some p → st.preparations w = some p)
    (hrow : ∀ next, st'.row = some next → LeaseKept st.row next) : LifecycleInv st' where
  lease := by
    intro w p next hp hnext howner
    rcases hrow next hnext with hnone | ⟨worktree, hworktree, hkept, hexpires, hgeneration, -⟩
    · rw [hnone] at howner
      cases howner
    · rw [hexpires, hgeneration]
      exact h.lease w p worktree (hpreparations w p hp) hworktree (hkept ▸ howner)
  cleanup := by
    intro next hnext hclean
    rcases hrow next hnext with hnone | ⟨worktree, hworktree, hkept, -, -, hstatus⟩
    · exact hnone
    · rw [hkept]
      rcases hstatus hclean with hold | hnone
      · exact h.cleanup worktree hworktree hold
      · exact hnone
  cleaning := by
    intro htrue
    rw [hcleaning] at htrue
    cases htrue

variable {w : Nat}

theorem LifecycleInv.takeLease (h : LifecycleInv st) (hcleaning : st.cleaning = false)
    {owner : String} {leaseSeconds : Int}
    (hmeets : LifecycleMeets st (.lease w owner leaseSeconds)) :
    LifecycleInv
      (rowStep naming repository uid runtimeScopeId st (.lease w owner leaseSeconds)) := by
  unfold rowStep
  simp only
  split
  · next worktree hrow hidle =>
    split
    · next next hlease =>
      rcases leaseRow_eq_ok hlease with ⟨heq, -⟩ | ⟨heq, hstatus, -⟩
      · cases heq
      · cases heq
        constructor
        · intro w' p worktree' hp hworktree' howner
          cases hworktree'
          have howner' : owner = p.owner := Option.some.inj howner
          simp only [Function.update_apply] at hp
          split at hp
          · cases hp
            exact ⟨rfl, rfl⟩
          · exact absurd howner'.symm (hmeets w' p hp)
        · intro worktree' hworktree' hclean
          simp only [Option.some.injEq] at hworktree'
          subst hworktree'
          simp [ProjectGitWorktree.toClean, ProjectGitWorktree.leased] at hclean
        · intro htrue
          rw [hcleaning] at htrue
          cases htrue
    · exact h
  · exact h

theorem mem_of_update_none {preparations : Nat → Option Preparation} {w' : Nat} {p : Preparation}
    (h : Function.update preparations w none w' = some p) : preparations w' = some p := by
  rw [Function.update_apply] at h
  split at h
  · cases h
  · exact h

variable {a : LifecycleAction}

/-! ## What a step can do -/

/-- When a step removes the directory, what follows a request for a cleanup, and who writes a ready
row: a push to one that is ready, or a worker with the lease. -/
structure SafeStep (st : LifecycleState) (a : LifecycleAction) (st' : LifecycleState) : Prop where
  removal : ∀ directory, st.directory = some directory → st'.directory = none →
    st.nonterminalRuns = 0 ∧ directory.clean = true ∧
      ∃ worktree, st.row = some worktree ∧ worktree.lastPushedSha = some directory.headSha
  pending : ∀ worktree, st.row = some worktree → worktree.status = .cleanupPending →
    ∃ next, st'.row = some next ∧ next.status ∈ [.cleanupPending, .removed, .cleanupFailed]
  ready : ∀ next, st'.row = some next → next.status = .ready → st.row ≠ some next →
    (∃ sha worktree, a = .push sha ∧ st.row = some worktree ∧ worktree.status = .ready) ∨
      ∃ w fetched preparation worktree expiresAt, a = .finish w fetched ∧
        st.preparations w = some preparation ∧ st.row = some worktree ∧
        worktree.leaseOwner = some preparation.owner ∧
        worktree.leaseExpiresAt = some expiresAt ∧ st.now < expiresAt ∧
        worktree.allocationGeneration = preparation.generation

theorem SafeStep.refl (st : LifecycleState) (a : LifecycleAction) : SafeStep st a st where
  removal := by
    intro directory hsome hnone
    rw [hsome] at hnone
    cases hnone
  pending := fun worktree hrow hstatus => ⟨worktree, hrow, by simp [hstatus]⟩
  ready := fun next hrow _ hne => absurd hrow hne

/-- A write of the row that leaves the directory alone and does not make the row ready. -/
theorem SafeStep.ofWrite {st st' : LifecycleState} (hdirectory : st'.directory = st.directory)
    (hpending : ∀ worktree, st.row = some worktree → worktree.status = .cleanupPending →
      ∃ next, st'.row = some next ∧ next.status ∈ [.cleanupPending, .removed, .cleanupFailed])
    (hready : ∀ next, st'.row = some next → next.status = .ready → st.row = some next) :
    SafeStep st a st' where
  removal := by
    intro directory hsome hnone
    rw [hdirectory, hsome] at hnone
    cases hnone
  pending := hpending
  ready := fun next hrow hstatus hne => absurd (hready next hrow hstatus) hne

/-! ## Transactions on the row -/

theorem requestRow_some (naming : Naming) (repository : ProjectGitRepository)
    (worktree : ProjectGitWorktree) (a : AllocationRequest) :
    (worktree.status ≠ .removed ∧ requestRow naming repository (some worktree) a = some worktree) ∨
      ∃ next, requestRow naming repository (some worktree) a = some next ∧
        ((worktree.status = .removed ∧
            next = reallocated worktree a (naming.branch a.intent a.uid a.runtimeScopeId)) ∨
          worktree.status = .prepareFailed ∧ next = worktree.reset .requested) := by
  unfold requestRow requestExisting
  by_cases hremoved : worktree.status = .removed
  · simp only [if_pos hremoved]
    exact .inr ⟨_, rfl, .inl ⟨hremoved, rfl⟩⟩
  · simp only [if_neg hremoved]
    split
    · exact .inl ⟨hremoved, rfl⟩
    · next next hrequest =>
      split at hrequest
      · cases hrequest
      · split at hrequest
        · next hfailed =>
          cases hrequest
          exact .inr ⟨_, rfl, .inr ⟨hfailed.1, rfl⟩⟩
        · cases hrequest
          exact .inl ⟨hremoved, rfl⟩

theorem reallocated_status (worktree : ProjectGitWorktree) (a : AllocationRequest)
    (branch : String) :
    (reallocated worktree a branch).status = .requested ∧
      (reallocated worktree a branch).leaseOwner = none := by
  unfold reallocated
  split <;> exact ⟨rfl, rfl⟩

/-- A write of the row that takes no lease, does not make the row ready, and does not drop a
cleanup that is asked for. -/
def QuietWrite (row : Option ProjectGitWorktree) (next : ProjectGitWorktree) : Prop :=
  LeaseKept row next ∧ next.status ≠ .ready ∧
    ∀ worktree, row = some worktree → worktree.status = .cleanupPending →
      next.status ∈ [.cleanupPending, .removed, .cleanupFailed]

theorem LifecycleInv.quiet (h : LifecycleInv st) (hcleaning : st'.cleaning = false)
    (hdirectory : st'.directory = st.directory)
    (hpreparations : ∀ w p, st'.preparations w = some p → st.preparations w = some p)
    (hrow : st'.row = st.row ∨ ∃ next, st'.row = some next ∧ QuietWrite st.row next) :
    LifecycleInv st' ∧ SafeStep st a st' := by
  rcases hrow with hsame | ⟨next, hnext, hlease, hready, hpending⟩
  · refine ⟨h.write hcleaning hpreparations ?_, .ofWrite hdirectory ?_ ?_⟩
    · intro next hnext
      rw [← hsame, hnext]
      exact leaseKept_self next
    · exact fun worktree hrow hstatus => ⟨worktree, hsame.trans hrow, by simp [hstatus]⟩
    · exact fun next hnext _ => hsame ▸ hnext
  · have honly : ∀ other, st'.row = some other → other = next := fun other hother =>
      Option.some.inj (hother.symm.trans hnext)
    refine ⟨h.write hcleaning hpreparations fun other hother => honly other hother ▸ hlease,
      .ofWrite hdirectory ?_ ?_⟩
    · exact fun worktree hrow hstatus => ⟨next, hnext, hpending worktree hrow hstatus⟩
    · exact fun other hother hstatus => absurd (honly other hother ▸ hstatus) hready

theorem requestRow_quiet (row : Option ProjectGitWorktree) (a : AllocationRequest) :
    requestRow naming repository row a = row ∨
      ∃ next, requestRow naming repository row a = some next ∧ QuietWrite row next := by
  cases row with
  | none => exact .inr ⟨_, rfl, .inl rfl, by simp [newWorktree], fun _ hrow => nomatch hrow⟩
  | some worktree =>
    rcases requestRow_some naming repository worktree a with
      ⟨-, hsame⟩ | ⟨next, hnext, ⟨hremoved, rfl⟩ | ⟨hfailed, rfl⟩⟩
    · exact .inl hsame
    · obtain ⟨hstatus, howner⟩ := reallocated_status worktree a
        (naming.branch a.intent a.uid a.runtimeScopeId)
      refine .inr ⟨_, hnext, .inl howner, by simp [hstatus], ?_⟩
      intro row hrow hpending
      cases hrow
      rw [hremoved] at hpending
      cases hpending
    · refine .inr ⟨_, hnext, .inl rfl, nofun, ?_⟩
      intro row hrow hpending
      cases hrow
      rw [hfailed] at hpending
      cases hpending

theorem LifecycleInv.rowStep (h : LifecycleInv st) (hcleaning : st.cleaning = false)
    (hmeets : LifecycleMeets st a) :
    LifecycleInv (rowStep naming repository uid runtimeScopeId st a) ∧
      SafeStep st a (ProjectGit.rowStep naming repository uid runtimeScopeId st a) := by
  have hsame : LifecycleInv st ∧ SafeStep st a st := ⟨h, .refl st a⟩
  cases a with
  | request a => exact h.quiet hcleaning rfl (fun _ _ hp => hp) (requestRow_quiet st.row a)
  | lease w owner leaseSeconds =>
    refine ⟨h.takeLease hcleaning hmeets, ?_⟩
    simp only [ProjectGit.rowStep]
    split
    · next worktree hrow hidle =>
      split
      · next next hlease =>
        rcases leaseRow_eq_ok hlease with ⟨heq, -⟩ | ⟨heq, hwanted, -⟩
        · cases heq
        · cases heq
          refine SafeStep.ofWrite (by rfl) ?_ ?_
          · intro worktree' hrow' hstatus
            rw [hrow] at hrow'
            cases hrow'
            rw [hstatus] at hwanted
            simp at hwanted
          · intro next hnext hstatus
            cases hnext
            cases hstatus
      · exact hsame.2
    · exact hsame.2
  | finish w fetched =>
    simp only [ProjectGit.rowStep]
    split
    · next worktree preparation hrow hpreparation =>
      split
      · exact hsame
      · next next hfinish =>
        obtain ⟨howner, hnext⟩ := finishRow_eq_ok hfinish
        obtain ⟨hexpires, hgeneration⟩ := h.lease w preparation worktree hpreparation hrow howner
        refine ⟨h.write hcleaning (fun _ _ => mem_of_update_none) ?_, nofun, ?_, ?_⟩
        · intro next' hnext'
          cases hnext'
          rw [hnext]
          exact .inl rfl
        · -- A row that is to be cleaned up has no lease, so no worker finishes it.
          intro worktree' hrow' hstatus
          rw [hrow] at hrow'
          cases hrow'
          have hnone := h.cleanup worktree hrow (by simp [ProjectGitWorktree.toClean, hstatus])
          rw [hnone] at howner
          cases howner
        · intro next' hnext' hstatus hne
          exact .inr ⟨w, fetched, preparation, worktree, preparation.expiresAt, rfl,
            hpreparation, hrow, howner, hexpires, hmeets preparation hpreparation, hgeneration⟩
    · exact hsame
  | push expectedHeadSha =>
    simp only [ProjectGit.rowStep]
    split
    · next worktree directory hrow hdirectory =>
      split
      · next hchecked =>
        refine ⟨h.write hcleaning (fun _ _ hp => hp) ?_, ?_, ?_, ?_⟩
        · intro next hnext
          cases hnext
          exact .inr ⟨worktree, hrow, rfl, rfl, rfl, .inl⟩
        · intro directory' hsome hnone
          simp only [hsome] at hnone
          cases hnone
        · intro worktree' hrow' hstatus
          rw [hrow] at hrow'
          cases hrow'
          rw [hstatus] at hchecked
          simp at hchecked
        · intro next hnext hstatus hne
          exact .inl ⟨expectedHeadSha, worktree, rfl, hrow, hchecked.2.1⟩
      · exact hsame
    · exact hsame
  | retry =>
    refine h.quiet hcleaning rfl (fun _ _ hp => hp) ?_
    simp only [ProjectGit.rowStep]
    cases hrow : st.row with
    | none => exact .inl rfl
    | some worktree =>
      by_cases hfailed : worktree.status = .prepareFailed
      · refine .inr ⟨_, congrArg some (if_pos hfailed), .inl rfl, nofun, ?_⟩
        intro row hrow hpending
        cases hrow
        rw [hfailed] at hpending
        cases hpending
      · exact .inl (congrArg some (if_neg hfailed))
  | recordFailure w =>
    simp only [ProjectGit.rowStep]
    split
    · exact hsame
    · next preparation hpreparation =>
      refine h.quiet hcleaning rfl (fun _ _ => mem_of_update_none) ?_
      cases hrow : st.row with
      | none => exact .inl rfl
      | some worktree =>
        by_cases howner : worktree.leaseOwner = some preparation.owner
        · refine .inr ⟨_, congrArg some (if_pos howner), .inl rfl, nofun, ?_⟩
          intro row hrow' hstatus
          have hnone := h.cleanup row (hrow.trans hrow')
            (by simp [ProjectGitWorktree.toClean, hstatus])
          cases hrow'
          rw [hnone] at howner
          cases howner
        · exact .inl (congrArg some (if_neg howner))
  | requestCleanup =>
    simp only [ProjectGit.rowStep]
    split
    · exact hsame
    · next worktree hrow =>
      split
      · exact hsame
      · refine h.quiet hcleaning rfl (fun _ _ hp => hp)
          (.inr ⟨_, rfl, .inl (hmeets worktree hrow), nofun, fun _ _ _ => by simp⟩)
  | checkCleanup =>
    simp only [ProjectGit.rowStep]
    split
    · exact hsame
    · next worktree hrow =>
      split
      · next hchecked =>
        refine ⟨⟨h.lease, h.cleanup, fun _ => ⟨hchecked.2.1, worktree, hrow, hchecked.1,
          hchecked.2.2⟩⟩, .ofWrite (by rfl) ?_ (fun _ hnext _ => hnext)⟩
        exact fun worktree hrow hstatus => ⟨worktree, hrow, by simp [hstatus]⟩
      · exact hsame
  | recordCleanupFailure =>
    refine h.quiet hcleaning rfl (fun _ _ hp => hp) ?_
    simp only [ProjectGit.rowStep]
    cases hrow : st.row with
    | none => exact .inl rfl
    | some worktree =>
      by_cases hclean : worktree.status ∈ [.cleanupPending, .cleanupFailed]
      · exact .inr ⟨_, congrArg some (if_pos hclean),
          .inr ⟨worktree, rfl, rfl, rfl, rfl, fun _ => .inl hclean⟩, nofun,
          fun _ _ _ => by simp⟩
      · exact .inl (congrArg some (if_neg hclean))
  | removeDirectory | abortCleanup | startRun | endRun | work | tick => exact hsame

theorem step_lifecycleInv (a : LifecycleAction) (hmeets : LifecycleMeets st a)
    (h : LifecycleInv st) :
    LifecycleInv (lifecycleStep naming repository uid runtimeScopeId st a) := by
  have hrowStep : LifecycleInv (if st.cleaning = true then st
      else ProjectGit.rowStep naming repository uid runtimeScopeId st a) := by
    split
    · exact h
    · next hfree => exact (h.rowStep (by simpa using hfree) hmeets).1
  cases a with
  | removeDirectory commits =>
    simp only [lifecycleStep]
    split
    · refine h.write rfl (fun _ _ hp => hp) ?_
      intro next hnext
      cases commits with
      | false =>
        have hrow : st.row = some next := hnext
        rw [hrow]
        exact leaseKept_self next
      | true =>
        obtain ⟨worktree, -, rfl⟩ := Option.map_eq_some_iff.mp hnext
        exact .inl rfl
    · exact h
  | abortCleanup =>
    exact { lease := h.lease, cleanup := h.cleanup, cleaning := fun hfalse => nomatch hfalse }
  | startRun =>
    refine { lease := h.lease, cleanup := h.cleanup, cleaning := fun htrue => ?_ }
    have hidle : st.cleaning = false := hmeets
    rw [show st.cleaning = true from htrue] at hidle
    cases hidle
  | endRun =>
    refine { lease := h.lease, cleanup := h.cleanup, cleaning := fun htrue => ?_ }
    obtain ⟨hruns, hrow⟩ := h.cleaning htrue
    refine ⟨?_, hrow⟩
    simp only [lifecycleStep, hruns]
  | work directory =>
    simp only [lifecycleStep]
    split
    · next hruns =>
      refine { lease := h.lease, cleanup := h.cleanup, cleaning := fun htrue => ?_ }
      have hnone := (h.cleaning htrue).1
      omega
    · exact h
  | tick seconds => exact { lease := h.lease, cleanup := h.cleanup, cleaning := h.cleaning }
  | _ => exact hrowStep

theorem LifecycleInv.removeDirectory_safe (h : LifecycleInv st) (commits : Bool) :
    SafeStep st (.removeDirectory commits)
      (lifecycleStep naming repository uid runtimeScopeId st (.removeDirectory commits)) := by
  simp only [lifecycleStep]
  split
  · next hcleaning =>
    obtain ⟨hruns, worktree, hrow, hclean, hpushed⟩ := h.cleaning hcleaning
    constructor
    · intro directory hsome _
      rw [hsome] at hpushed
      simp only [pushedProgress, Bool.and_eq_true, beq_iff_eq] at hpushed
      exact ⟨hruns, hpushed.1, worktree, hrow, hpushed.2⟩
    · intro worktree' hrow' hstatus
      cases commits with
      | false => exact ⟨worktree', hrow', by simp [hstatus]⟩
      | true =>
        refine ⟨worktree'.reset .removed, ?_, by simp [ProjectGitWorktree.reset]⟩
        simp [hrow']
    · intro next hnext hstatus hne
      cases commits with
      | false => exact absurd hnext hne
      | true =>
        obtain ⟨worktree', -, rfl⟩ := Option.map_eq_some_iff.mp hnext
        cases hstatus
  · exact .refl st _

theorem LifecycleInv.step_safe (h : LifecycleInv st) (hmeets : LifecycleMeets st a) :
    SafeStep st a (lifecycleStep naming repository uid runtimeScopeId st a) := by
  have hsame : ∀ {st' : LifecycleState}, st'.row = st.row → st'.directory = st.directory →
      SafeStep st a st' := by
    intro st' hrow hdirectory
    refine SafeStep.ofWrite hdirectory ?_ (fun next hnext _ => hrow ▸ hnext)
    exact fun worktree hworktree hstatus => ⟨worktree, by rw [hrow, hworktree], by simp [hstatus]⟩
  have hrowStep : SafeStep st a (if st.cleaning = true then st
      else ProjectGit.rowStep naming repository uid runtimeScopeId st a) := by
    split
    · exact .refl st a
    · next hfree => exact (h.rowStep (by simpa using hfree) hmeets).2
  cases a with
  | removeDirectory commits => exact h.removeDirectory_safe commits
  | abortCleanup | startRun | endRun | tick => exact hsame rfl rfl
  | work directory =>
    simp only [lifecycleStep]
    split
    · constructor
      · intro directory' hsome hnone
        cases hnone
      · exact fun worktree hrow hstatus => ⟨worktree, hrow, by simp [hstatus]⟩
      · exact fun next hnext _ hne => absurd hnext hne
    · exact .refl st _
  | _ => exact hrowStep

end Steps

/-- In every run whose steps meet the conditions, every step is safe. -/
theorem worktree_lifecycle_safe (naming : Naming) (repository : ProjectGitRepository)
    (uid runtimeScopeId : String) (as : List LifecycleAction) (a : LifecycleAction)
    (hmeets : Transition.Guarded (lifecycleStep naming repository uid runtimeScopeId)
      LifecycleMeets .initial (as ++ [a])) :
    SafeStep (Transition.exec (lifecycleStep naming repository uid runtimeScopeId) .initial as) a
      (Transition.exec (lifecycleStep naming repository uid runtimeScopeId) .initial
        (as ++ [a])) := by
  obtain ⟨hrun, hlast, -⟩ := (Transition.guarded_append _ _ _ _).mp hmeets
  have hinv := Transition.exec_invariant_of_guarded _
    (fun st a hmeets h => step_lifecycleInv a hmeets h) lifecycleInv_initial hrun
  rw [Transition.exec_append]
  exact hinv.step_safe hlast

/-! ## Sample runs -/

/-- The names of the scope `thread` of the user `u`. -/
def sampleNaming : Naming where
  taskKey _ _ := "2a76dcd45818b960de06999e"
  branch intent _ _ :=
    "codex/" ++ intent.branchKind ++ "/" ++ intent.branchSlug.getD "" ++ "-2a76dcd4"
  relativePath directoryName taskKey := "repos/" ++ directoryName ++ "/worktrees/" ++ taskKey
  allocated branch := branch.startsWith "codex/"
  lower := String.toLower

def sampleRepository : ProjectGitRepository where
  projectId := "p"
  uid := "u"
  name := "app"
  status := .active
  directoryName := "app"
  defaultBranch := "main"
  allowedBaseBranches := ["main"]

def sampleAllocation : AllocationRequest where
  uid := "u"
  runtimeScopeId := "thread"
  requestId := some "r"
  selectionSource := .user
  requestedByRunId := none
  intent :=
    { baseBranch := "main", branchKind := "fix", branchSlug := some "login", taskPurpose := "fix" }
  explicitRetry := false
  newId := "w"
  now := 0

def sampleFetched : FetchedState where
  baseSha := "b0"
  remoteBranchSha := none
  headSha := "b0"

abbrev sampleLifecycle (as : List LifecycleAction) : LifecycleState :=
  Transition.exec (lifecycleStep sampleNaming sampleRepository "u" "thread") .initial as

/-- A cleanup is requested while a worker prepares the worktree; the worker makes it ready. -/
theorem worktree_lifecycle_unsafe :
    ¬ ∀ (naming : Naming) (repository : ProjectGitRepository) (uid runtimeScopeId : String)
      (as : List LifecycleAction) (a : LifecycleAction),
      SafeStep (Transition.exec (lifecycleStep naming repository uid runtimeScopeId) .initial as) a
        (Transition.exec (lifecycleStep naming repository uid runtimeScopeId) .initial
          (as ++ [a])) := by
  intro h
  have hsafe := h sampleNaming sampleRepository "u" "thread"
    [.request sampleAllocation, .lease 0 "worker" 60, .requestCleanup] (.finish 0 sampleFetched)
  have hbefore : ((sampleLifecycle [.request sampleAllocation, .lease 0 "worker" 60,
      .requestCleanup]).row.map ProjectGitWorktree.status) = some .cleanupPending := by
    decide +kernel
  have hafter : ((sampleLifecycle [.request sampleAllocation, .lease 0 "worker" 60,
      .requestCleanup, .finish 0 sampleFetched]).row.map ProjectGitWorktree.status) =
        some .ready := by
    decide +kernel
  obtain ⟨worktree, hrow, hstatus⟩ := Option.map_eq_some_iff.mp hbefore
  obtain ⟨next, hnext, hmem⟩ := hsafe.pending worktree hrow hstatus
  obtain ⟨next', hnext', hready⟩ := Option.map_eq_some_iff.mp hafter
  have heq : next = next' := Option.some.inj (hnext.symm.trans hnext')
  rw [heq, hready] at hmem
  simp at hmem

/-- A worktree is prepared, pushed and cleaned up. -/
def cleanedRun : List LifecycleAction :=
  [.request sampleAllocation, .lease 0 "worker" 60, .finish 0 sampleFetched, .startRun,
    .work { branch := "codex/fix/login-2a76dcd4", clean := true, headSha := "c1" }, .push "c1", .endRun,
    .requestCleanup, .checkCleanup]

theorem worktree_lifecycle_cleaned : SafeStep (sampleLifecycle cleanedRun) (.removeDirectory true)
      (sampleLifecycle (cleanedRun ++ [.removeDirectory true])) := by
  have hlease : (sampleLifecycle (cleanedRun.take 2)).preparations 0 =
      some { owner := "worker", generation := 1, expiresAt := 60 } := by decide +kernel
  have hfree : ((sampleLifecycle (cleanedRun.take 7)).row.bind ProjectGitWorktree.leaseOwner) =
      none := by decide +kernel
  apply worktree_lifecycle_safe sampleNaming sampleRepository "u" "thread"
  refine ⟨trivial, ?_, ?_, ?_, trivial, trivial, trivial, ?_, trivial, trivial, trivial⟩
  · intro w p hp
    cases hp
  · intro p hp
    have hvalue : p = { owner := "worker", generation := 1, expiresAt := 60 } :=
      Option.some.inj (hp.symm.trans hlease)
    have hnow : (sampleLifecycle (cleanedRun.take 2)).now < 60 := by decide +kernel
    rw [hvalue]
    exact hnow
  · show (sampleLifecycle (cleanedRun.take 3)).cleaning = false
    decide +kernel
  · intro worktree hrow
    have hrow' : (sampleLifecycle (cleanedRun.take 7)).row = some worktree := hrow
    rwa [hrow', Option.bind_some] at hfree

end Yuanlei.ProjectGit
