import Yuanlei.Task.Repository

/-!
# The lifecycle of durable tasks

What a transaction can do to the row of a task is listed once, with the checks that were
made before it.  The claims about the lifecycle follow from that list: a task is claimed at
most once, a finished task is never touched again, and what a worker writes is fenced by
its lease.

Main results:

- `task_lifecycle`: the lifecycle and the fencing, along every run.
- `failing_pending_writes_progress`: failing a task that nobody owns writes its
  progress.
- `abandoned_task_only_fails`: once the lease has run out, no worker writes to the task, and
  reconciliation fails it.
-/

namespace Yuanlei

namespace TaskRepository

variable {D : Type}

/-! ## What a transaction can do to a row -/

/-- A write of a transaction on the row of a task, with the checks before it and the hook that has
run. -/
inductive TaskWrite (e : TaskEvent D) (taskId : TaskId) :
    TaskRow → TaskRow → Option (TaskHook D) → Prop
  | claimed {row : TaskRow} {workerId : String} {leaseSeconds : Int} {maxRunning : Option Int}
      (hop : e.op = .claim taskId workerId leaseSeconds maxRunning)
      (hpending : row.status = .pending) (hintent : row.cancelRequested = false) :
      TaskWrite e taskId row (row.claimed workerId leaseSeconds e.now) none
  | cancelledAtClaim {row : TaskRow} {message workerId : String} {leaseSeconds : Int}
      {maxRunning : Option Int} (hop : e.op = .claim taskId workerId leaseSeconds maxRunning)
      (hpending : row.status = .pending) (hintent : row.cancelRequested = true) :
      TaskWrite e taskId row (row.cancelledPending message e.now) none
  | cancelIntent {row : TaskRow} (hrunning : row.status = .running) :
      TaskWrite e taskId row (row.cancelIntent e.now) none
  | cancelled {row : TaskRow} {message : String} {beforeCancel : Option (TaskHook D)}
      (hpending : row.status = .pending) (hop : e.op = .requestCancel taskId beforeCancel) :
      TaskWrite e taskId row ((row.cancelIntent e.now).cancelledPending message e.now) beforeCancel
  | renewed {row : TaskRow} {workerId : String} {leaseSeconds : Int}
      (hlive : row.isLiveOwner workerId e.now) :
      TaskWrite e taskId row (row.renewed leaseSeconds e.now) none
  | updated {row : TaskRow} {workerId : String} {data : TaskUpdate}
      (hop : e.op = .updateOwned taskId workerId data)
      (hlive : row.isLiveOwner workerId e.now) :
      TaskWrite e taskId row (row.updated data e.now) none
  | finished {row : TaskRow} {workerId : String} {call : FinishCall D}
      (hop : e.op = .finishOwned taskId workerId call)
      (hlive : row.isLiveOwner workerId e.now) (hstill : row.isLiveOwner workerId e.later) :
      TaskWrite e taskId row
        (row.finished (call.args.effective row).status (call.args.effective row).message
          (call.args.effective row).result (call.args.effective row).error e.later)
        (call.args.effective row).beforeFinish
  | released {row : TaskRow} {workerId error : String} {beforeFail : Option (TaskHook D)}
      {last : Time} (hop : e.op = .releaseInterruptedOwner taskId workerId error beforeFail)
      (hlast : last = if beforeFail.isSome then e.later else e.now)
      (hlive : row.isLiveOwner workerId e.now) (hstill : row.isLiveOwner workerId last) :
      TaskWrite e taskId row (row.failInterrupted error last) beforeFail
  | failedPending {row : TaskRow} {error : String} {beforeFail : Option (TaskHook D)}
      (hop : e.op = .failPending taskId error beforeFail) (hpending : row.status = .pending) :
      TaskWrite e taskId row (row.failedPending error e.now) beforeFail
  | reconciled {row : TaskRow} {scan : List TaskId} {beforeFail : Option (String → TaskHook D)}
      (hop : e.op = .reconcileExpiredLeases scan beforeFail) (hexpired : expired row e.now) :
      TaskWrite e taskId row (row.failInterrupted leaseExpiredError e.now)
        (beforeFail.map (· leaseExpiredError))

/-- What a transaction, or one round of its loop, does to the store. -/
inductive TaskEffect (e : TaskEvent D) (s : TaskStore D) : TaskStore D → Prop
  | kept : TaskEffect e s s
  | created {taskId : TaskId} {data : TaskData} {tasks : Table TaskId TaskRow}
      (hop : e.op = .create taskId data)
      (hinsert : s.tasks.insert taskId (data.row e.now) = some tasks) :
      TaskEffect e s { s with tasks := tasks }
  | ran {taskId : TaskId} {workerId : String} {operation : TaskHook D} {row : TaskRow} {domain : D}
      (hop : e.op = .runOwnedTransaction taskId workerId operation)
      (hran : runHook (some operation) s.domain taskId row = .ok domain) :
      TaskEffect e s { s with domain := domain }
  | written {taskId : TaskId} {row row' r : TaskRow} {hook : Option (TaskHook D)} {domain : D}
      (hrow : s.tasks.get taskId = some row) (hwrite : TaskWrite e taskId row row' hook)
      (hrun : r.type = row.type ∧ r.handlerVersion = row.handlerVersion)
      (hran : runHook hook s.domain taskId r = .ok domain) :
      TaskEffect e s ({ s with domain := domain }.put taskId row')

/-- What a transaction does to the table: a row is kept or written, and a new row is that of a
new task. -/
structure Written (e : TaskEvent D) (s s' : TaskStore D) : Prop where
  row : ∀ taskId row, s.tasks.get taskId = some row →
    ∃ row', s'.tasks.get taskId = some row' ∧ (row' = row ∨ ∃ hook, TaskWrite e taskId row row' hook)
  fresh : ∀ taskId row', s.tasks.get taskId = none → s'.tasks.get taskId = some row' →
    ∃ data : TaskData, e.op = .create taskId data ∧ row' = data.row e.now

variable {e : TaskEvent D} {s s' : TaskStore D}

theorem Written.of_tasks_eq (h : s'.tasks = s.tasks) : Written e s s' where
  row _ row hrow := ⟨row, by rw [h, hrow], .inl rfl⟩
  fresh taskId row' hnone hsome := by
    rw [h, hnone] at hsome
    cases hsome

theorem Written.refl (e : TaskEvent D) (s : TaskStore D) : Written e s s :=
  .of_tasks_eq rfl

/-- Replacing the row of one task leaves all others. -/
theorem get_put (s : TaskStore D) (taskId j : TaskId) (row : TaskRow) :
    (s.put taskId row).tasks.get j =
      if j = taskId then (s.tasks.get j).map fun _ => row else s.tasks.get j :=
  Table.get_modify s.tasks taskId j fun _ => row

variable {taskId : TaskId} {row : TaskRow}

theorem TaskEffect.table (h : TaskEffect e s s') : Written e s s' := by
  cases h with
  | kept => exact .of_tasks_eq rfl
  | ran => exact .of_tasks_eq rfl
  | @created taskId data tasks hop hinsert =>
    obtain ⟨hfresh, hget⟩ := Table.get_of_insert hinsert
    constructor
    · intro j row hrow
      refine ⟨row, ?_, .inl rfl⟩
      have hne : j ≠ taskId := by
        rintro rfl
        rw [hfresh] at hrow
        cases hrow
      simpa [hget, hne] using hrow
    · intro j row' hnone hsome
      simp only [hget] at hsome
      split_ifs at hsome
      · rename_i hid
        subst hid
        cases hsome
        exact ⟨data, hop, rfl⟩
      · rw [hnone] at hsome
        cases hsome
  | @written taskId row row' _ _ _ hrow hwrite =>
    constructor
    · intro j r hr
      rw [get_put]
      split_ifs with hj
      · subst hj
        rw [hrow] at hr
        cases hr
        exact ⟨row', by simp [hrow], .inr ⟨_, hwrite⟩⟩
      · exact ⟨r, hr, .inl rfl⟩
    · intro j r hnone hsome
      rw [get_put] at hsome
      split_ifs at hsome
      · simp [hnone] at hsome
      · rw [hnone] at hsome
        cases hsome

/-! ## The transactions -/

theorem create_effect (s : TaskStore D) {data : TaskData} (hop : e.op = .create taskId data) :
    TaskEffect e s (s.after (create s taskId (data.row e.now))) := by
  unfold create
  split
  · rename_i tasks hinsert
    split_ifs at hinsert
    exact .created hop hinsert
  · split
    · exact .kept
    · split <;> exact .kept

variable {workerId : String} {leaseSeconds : Int} {maxRunning : Option Int}

theorem claim_effect (s : TaskStore D) (hop : e.op = .claim taskId workerId leaseSeconds maxRunning) :
    TaskEffect e s (s.after (claim s taskId workerId leaseSeconds maxRunning e.now)) := by
  unfold claim
  split_ifs
  · exact .kept
  · exact .kept
  · exact .kept
  · exact .kept
  · split
    · exact .kept
    · rename_i row hrow
      split_ifs with hpending hintent
      · exact .kept
      · exact .written (r := row) hrow (.cancelledAtClaim hop (not_not.mp hpending) hintent) ⟨rfl, rfl⟩ rfl
      · exact .written (r := row) hrow
          (.claimed hop (not_not.mp hpending) (by simpa using hintent)) ⟨rfl, rfl⟩ rfl

theorem renewLease_effect (s : TaskStore D) (taskId : TaskId)
    (workerId : String) (leaseSeconds : Int) :
    TaskEffect e s (s.after (renewLease s taskId workerId leaseSeconds e.now)) := by
  unfold renewLease
  split
  · exact .kept
  · rename_i row hrow
    split_ifs with hlive
    · exact .kept
    · exact .written (r := row) hrow (.renewed (by simpa using hlive)) ⟨rfl, rfl⟩ rfl

theorem updateOwned_effect (s : TaskStore D) {data : TaskUpdate}
    (hop : e.op = .updateOwned taskId workerId data) :
    TaskEffect e s (s.after (updateOwned s taskId workerId data e.now)) := by
  unfold updateOwned
  split
  · exact .kept
  · rename_i row hrow
    split_ifs with hlive
    · exact .kept
    · exact .written (r := row) hrow (.updated hop (by simpa using hlive)) ⟨rfl, rfl⟩ rfl

theorem finishOwned_effect (s : TaskStore D) {call : FinishCall D}
    (hop : e.op = .finishOwned taskId workerId call) :
    TaskEffect e s (s.after (finishOwned s taskId workerId call.args e.now e.later)) := by
  unfold finishOwned
  split_ifs
  · exact .kept
  · split
    · exact .kept
    · rename_i row hrow
      split
      · exact .kept
      · rename_i hlive
        simp only
        split
        · exact .kept
        · rename_i hran
          split
          · exact .kept
          · rename_i hstill
            exact .written hrow
              (.finished hop (by simpa using hlive) (by simpa using hstill)) ⟨rfl, rfl⟩ hran

variable {error : String}

theorem releaseInterruptedOwner_effect (s : TaskStore D) {beforeFail : Option (TaskHook D)}
    (hop : e.op = .releaseInterruptedOwner taskId workerId error beforeFail) :
    TaskEffect e s
      (s.after (releaseInterruptedOwner s taskId workerId error beforeFail e.now e.later)) := by
  unfold releaseInterruptedOwner
  split
  · exact .kept
  · rename_i row hrow
    split
    · exact .kept
    · rename_i hlive
      simp only
      generalize hlast : (if beforeFail.isSome then e.later else e.now) = last
      split
      · exact .kept
      · rename_i hran
        split
        · exact .kept
        · rename_i hstill
          exact .written hrow
            (.released hop hlast.symm (by simpa using hlive) (by simpa using hstill)) ⟨rfl, rfl⟩ hran

theorem requestCancel_effect (s : TaskStore D) {beforeCancel : Option (TaskHook D)}
    (hop : e.op = .requestCancel taskId beforeCancel) :
    TaskEffect e s (s.after (requestCancel s taskId beforeCancel e.now)) := by
  unfold requestCancel
  split
  · exact .kept
  · rename_i row hrow
    split_ifs with hterminal
    · exact .kept
    · simp only
      have hstatus : (row.cancelIntent e.now).status = row.status := rfl
      rw [hstatus]
      split_ifs with hpending
      · split
        · exact .kept
        · rename_i hran
          exact .written (r := row.cancelIntent e.now) hrow (.cancelled hpending hop) ⟨rfl, rfl⟩ hran
      · refine .written (r := row) hrow (.cancelIntent ?_) ⟨rfl, rfl⟩ rfl
        cases hcase : row.status <;> simp [hcase, TaskStatus.isTerminal] at hterminal hpending ⊢

theorem failPending_effect (s : TaskStore D) {beforeFail : Option (TaskHook D)}
    (hop : e.op = .failPending taskId error beforeFail) :
    TaskEffect e s (s.after (failPending s taskId error beforeFail e.now)) := by
  unfold failPending
  split
  · exact .kept
  · rename_i row hrow
    split_ifs with hpending
    · exact .kept
    · split
      · exact .kept
      · rename_i hran
        exact .written hrow (.failedPending hop (not_not.mp hpending)) ⟨rfl, rfl⟩ hran

variable {operation : TaskHook D}

theorem runOwnedTransaction_effect (s : TaskStore D)
    (hop : e.op = .runOwnedTransaction taskId workerId operation) :
    TaskEffect e s (s.after (runOwnedTransaction s taskId workerId operation e.now e.later)) := by
  unfold runOwnedTransaction
  split
  · exact .kept
  · split
    · exact .kept
    · split
      · exact .kept
      · rename_i hran
        split
        · exact .kept
        · exact .ran hop hran

variable {beforeFail : Option (String → TaskHook D)} {scan : List TaskId}
  {acc acc' : List (TaskId × TaskStatus × Nat) × TaskStore D}

theorem reconcileVisit_effect (hop : e.op = .reconcileExpiredLeases scan beforeFail)
    (h : reconcileVisit beforeFail e.now acc taskId = .ok acc') : TaskEffect e acc.2 acc'.2 := by
  unfold reconcileVisit at h
  split at h
  · cases h
    exact .kept
  · rename_i row hrow
    split at h
    · cases h
      exact .kept
    · rename_i hexpired
      split at h
      · cases h
      · rename_i hran
        cases h
        exact .written hrow (.reconciled hop (by simpa using hexpired)) ⟨rfl, rfl⟩ hran

variable {now : Time}

theorem reconcileRows_spec (h : reconcileRows beforeFail now acc scan = .ok acc') :
    (∀ taskId row, acc.2.tasks.get taskId = some row →
      ∃ row', acc'.2.tasks.get taskId = some row' ∧ (row' = row ∨
        expired row now ∧ row' = row.failInterrupted leaseExpiredError now)) ∧
      ∀ taskId, acc.2.tasks.get taskId = none → acc'.2.tasks.get taskId = none := by
  induction scan generalizing acc with
  | nil =>
    simp only [reconcileRows, Except.ok.injEq] at h
    subst h
    exact ⟨fun _ row hrow => ⟨row, hrow, .inl rfl⟩, fun _ hnone => hnone⟩
  | cons visited rest ih =>
    rw [reconcileRows] at h
    split at h
    · cases h
    · rename_i acc₁ hvisit
      obtain ⟨hrows, hnone⟩ := ih h
      unfold reconcileVisit at hvisit
      split at hvisit
      · cases hvisit
        exact ⟨hrows, hnone⟩
      · rename_i row hrow
        split at hvisit
        · cases hvisit
          exact ⟨hrows, hnone⟩
        · rename_i hexpired
          split at hvisit
          · cases hvisit
          · cases hvisit
            simp only [get_put] at hrows hnone
            refine ⟨fun j r hr => ?_, fun j hj => hnone j (by simp [hj])⟩
            by_cases hj : j = visited
            · subst hj
              rw [hrow] at hr
              cases hr
              -- A task that was failed is not expired, so that it is not visited again.
              obtain ⟨row', hrow', hsame | ⟨hagain, -⟩⟩ :=
                hrows j (row.failInterrupted leaseExpiredError now) (by simp [hrow])
              · exact ⟨row', hrow', .inr ⟨by simpa using hexpired, hsame⟩⟩
              · simp [expired, TaskRow.failInterrupted] at hagain
            · exact hrows j r (by simp [hj, hr])

theorem reconcileExpiredLeases_written (s : TaskStore D)
    (hop : e.op = .reconcileExpiredLeases scan beforeFail) :
    Written e s (s.after (reconcileExpiredLeases s scan beforeFail e.now)) := by
  unfold reconcileExpiredLeases
  cases hrows : reconcileRows beforeFail e.now ([], s) scan with
  | error error => exact .refl e s
  | ok acc =>
    obtain ⟨hrow, hnone⟩ := reconcileRows_spec hrows
    constructor
    · intro taskId row hget
      obtain ⟨row', hrow', hsame | ⟨hexpired, rfl⟩⟩ := hrow taskId row hget
      · exact ⟨row', hrow', .inl hsame⟩
      · exact ⟨_, hrow', .inr ⟨_, .reconciled hop hexpired⟩⟩
    · intro taskId row' hget hsome
      simp only [TaskStore.after] at hsome
      rw [hnone taskId hget] at hsome
      cases hsome

/-- A transaction without a loop. -/
theorem taskStep_effect (s : TaskStore D) (e : TaskEvent D)
    (hop : ∀ scan beforeFail, e.op ≠ .reconcileExpiredLeases scan beforeFail) :
    TaskEffect e s (taskStep s e) := by
  unfold taskStep
  split
  · rename_i hop
    exact create_effect s hop
  · rename_i hop
    exact claim_effect s hop
  · exact renewLease_effect s _ _ _
  · rename_i hop
    exact updateOwned_effect s hop
  · rename_i hop
    exact runOwnedTransaction_effect s hop
  · rename_i hop
    exact finishOwned_effect s hop
  · rename_i hop
    exact releaseInterruptedOwner_effect s hop
  · rename_i hop
    exact requestCancel_effect s hop
  · rename_i hop
    exact failPending_effect s hop
  · rename_i hloop
    exact absurd hloop (hop _ _)

/-- Every change of a row is one of the listed writes. -/
theorem taskStep_write (s : TaskStore D) (e : TaskEvent D) : Written e s (taskStep s e) := by
  by_cases hop : ∃ scan beforeFail, e.op = .reconcileExpiredLeases scan beforeFail
  · obtain ⟨scan, beforeFail, hop⟩ := hop
    simp only [taskStep, hop]
    exact reconcileExpiredLeases_written s hop
  · push Not at hop
    exact (taskStep_effect s e hop).table

/-! ## The rows of a run -/

/-- The statuses that a transaction may move a task to. -/
def successors : TaskStatus → List TaskStatus
  | .pending => [.running, .cancelled, .failed]
  | .running => [.success, .failed, .cancelled]
  | .success | .failed | .cancelled => []

/-- What the row of a task satisfies in every state of a run. -/
structure Sound (row : TaskRow) : Prop where
  attempts : row.attemptCount ≤ 1
  pending : row.status = .pending → row.attemptCount = 0 ∧ row.workerId = none ∧
    row.heartbeatAt = none ∧ row.leaseExpiresAt = none
  running : row.status = .running → row.workerId.isSome ∧ row.leaseExpiresAt.isSome
  terminal : row.status.isTerminal → row.workerId = none ∧ row.heartbeatAt = none ∧
    row.leaseExpiresAt = none ∧ row.dedupeKey = none
  success : row.status = .success → row.cancelRequested = false

theorem sound_row (data : TaskData) (now : Time) : Sound (data.row now) where
  attempts := by simp [TaskData.row]
  pending _ := ⟨rfl, rfl, rfl, rfl⟩
  running h := by cases h
  terminal h := by cases h
  success h := by cases h

variable (call : FinishCall D)

/-- The status that a call of `finish_owned` ends with is final. -/
theorem effective_isTerminal (row : TaskRow) :
    (call.args.effective row).status.isTerminal := by
  unfold FinishArgs.effective
  split_ifs
  · rfl
  · cases call with
    | success => rfl
    | failure cancelled => cases cancelled <;> rfl

theorem effective_of_cancelRequested (hintent : row.cancelRequested) :
    (call.args.effective row).status ≠ .success ∧ (call.args.effective row).result = none := by
  unfold FinishArgs.effective
  cases call with
  | success => simp [hintent, FinishCall.args, FinishArgs.cancelled]
  | failure cancelled =>
    cases cancelled <;> simp [hintent, FinishCall.args, FinishArgs.cancelled]

theorem isLiveOwner_running (h : row.isLiveOwner workerId now) : row.status = .running := by
  simp only [TaskRow.isLiveOwner, Bool.and_eq_true, beq_iff_eq] at h
  exact h.1.1

theorem expired_running (h : expired row now) : row.status = .running := by
  simp only [expired, Bool.and_eq_true, beq_iff_eq] at h
  exact h.1

/-- The worker that a transaction acts for, with its task. -/
def TaskOp.caller : TaskOp D → Option (TaskId × String)
  | .renewLease taskId workerId _ => some (taskId, workerId)
  | .updateOwned taskId workerId _ => some (taskId, workerId)
  | .runOwnedTransaction taskId workerId _ => some (taskId, workerId)
  | .finishOwned taskId workerId _ => some (taskId, workerId)
  | .releaseInterruptedOwner taskId workerId _ _ => some (taskId, workerId)
  | .create .. | .claim .. | .requestCancel .. | .failPending .. | .reconcileExpiredLeases .. =>
    none

/-- The last reading of the clock before a transaction commits. -/
def TaskEvent.lastReading (e : TaskEvent D) : Time :=
  match e.op with
  | .runOwnedTransaction .. => e.later
  | .finishOwned .. => e.later
  | .releaseInterruptedOwner _ _ _ beforeFail => if beforeFail.isSome then e.later else e.now
  | _ => e.now

/-- The caller of a transaction owns the task with an unexpired lease, before and after the
hook of the transaction. -/
def FencedBy (e : TaskEvent D) (taskId : TaskId) (row : TaskRow) (workerId : String) : Prop :=
  e.op.caller = some (taskId, workerId) ∧ row.isLiveOwner workerId e.now ∧
    row.isLiveOwner workerId e.lastReading

/-- A transaction that fails a task without an owner: one that has not started, or one whose
lease is over. -/
def FailsUnowned (e : TaskEvent D) (taskId : TaskId) (row row' : TaskRow) : Prop :=
  row'.status = .failed ∧ row'.progress = 100 ∧ row'.result = row.result ∧
    ((∃ error beforeFail, e.op = .failPending taskId error beforeFail ∧ row.status = .pending) ∨
      ∃ scan beforeFail, e.op = .reconcileExpiredLeases scan beforeFail ∧ expired row e.now)

namespace TaskWrite

variable {e : TaskEvent D} {taskId : TaskId} {row row' : TaskRow} {hook : Option (TaskHook D)}

section

variable (h : TaskWrite e taskId row row' hook)
include h

/-- Only a task that has not ended is written. -/
theorem not_terminal : row.status.isTerminal = false := by
  cases h with
  | claimed _ hpending _ => rw [hpending]; rfl
  | cancelledAtClaim _ hpending _ => rw [hpending]; rfl
  | cancelIntent hrunning => rw [hrunning]; rfl
  | cancelled hpending _ => rw [hpending]; rfl
  | renewed hlive => rw [isLiveOwner_running hlive]; rfl
  | updated _ hlive => rw [isLiveOwner_running hlive]; rfl
  | finished _ hlive _ => rw [isLiveOwner_running hlive]; rfl
  | released _ _ hlive _ => rw [isLiveOwner_running hlive]; rfl
  | failedPending _ hpending => rw [hpending]; rfl
  | reconciled _ hexpired => rw [expired_running hexpired]; rfl

/-- Every write keeps the invariant of the rows. -/
theorem sound (hsound : Sound row) : Sound row' := by
  obtain ⟨hattempts, hpend, hrun, -, -⟩ := hsound
  cases h with
  | claimed _ hpending _ =>
    obtain ⟨hzero, -⟩ := hpend hpending
    constructor <;> simp [TaskRow.claimed, hzero, TaskStatus.isTerminal]
  | cancelledAtClaim _ hpending _ =>
    obtain ⟨hzero, hworker, hheartbeat, hlease⟩ := hpend hpending
    constructor <;> simp [TaskRow.cancelledPending, hzero, hworker, hheartbeat, hlease]
  | cancelIntent hrunning =>
    constructor <;>
      simp [TaskRow.cancelIntent, hrunning, hattempts, hrun hrunning, TaskStatus.isTerminal]
  | cancelled hpending _ =>
    obtain ⟨hzero, hworker, hheartbeat, hlease⟩ := hpend hpending
    constructor <;>
      simp [TaskRow.cancelledPending, TaskRow.cancelIntent, hzero, hworker, hheartbeat, hlease]
  | renewed hlive =>
    have hrunning := isLiveOwner_running hlive
    constructor <;>
      simp [TaskRow.renewed, hrunning, hattempts, hrun hrunning, TaskStatus.isTerminal]
  | updated _ hlive =>
    have hrunning := isLiveOwner_running hlive
    constructor <;>
      simp [TaskRow.updated, hrunning, hattempts, hrun hrunning, TaskStatus.isTerminal]
  | @finished _ call _ _ _ =>
    have hterminal := effective_isTerminal call row
    constructor
    · exact hattempts
    · intro hpending
      simp only [TaskRow.finished] at hpending
      simp [hpending, TaskStatus.isTerminal] at hterminal
    · intro hrunning
      simp only [TaskRow.finished] at hrunning
      simp [hrunning, TaskStatus.isTerminal] at hterminal
    · intro _
      exact ⟨rfl, rfl, rfl, rfl⟩
    · intro hsuccess
      by_contra hintent
      have hrequested : row.cancelRequested := by
        simpa [TaskRow.finished, TaskRow.clearExecution] using hintent
      exact (effective_of_cancelRequested call hrequested).1 hsuccess
  | released =>
    constructor <;> simp [TaskRow.failInterrupted, TaskRow.clearExecution, hattempts]
  | failedPending _ hpending =>
    obtain ⟨hzero, hworker, hheartbeat, hlease⟩ := hpend hpending
    constructor <;> simp [TaskRow.failedPending, hzero, hworker, hheartbeat, hlease]
  | reconciled =>
    constructor <;> simp [TaskRow.failInterrupted, TaskRow.clearExecution, hattempts]

/-- Every write keeps the status or follows an edge of the graph. -/
theorem moves :
    row'.status = row.status ∨ row'.status ∈ successors row.status := by
  cases h with
  | claimed _ hpending _ => simp [TaskRow.claimed, hpending, successors]
  | cancelledAtClaim _ hpending _ => simp [TaskRow.cancelledPending, hpending, successors]
  | cancelIntent => exact .inl rfl
  | cancelled hpending _ => simp [TaskRow.cancelledPending, hpending, successors]
  | renewed => exact .inl rfl
  | updated => exact .inl rfl
  | @finished _ call _ hlive _ =>
    have hterminal := effective_isTerminal call row
    rw [isLiveOwner_running hlive]
    cases hstatus : (call.args.effective row).status <;>
      simp_all [TaskRow.finished, successors, TaskStatus.isTerminal]
  | released _ _ hlive _ => simp [TaskRow.failInterrupted, isLiveOwner_running hlive, successors]
  | failedPending _ hpending => simp [TaskRow.failedPending, hpending, successors]
  | reconciled _ hexpired => simp [TaskRow.failInterrupted, expired_running hexpired, successors]

theorem cancelRequested (hintent : row.cancelRequested) :
    row'.cancelRequested := by
  cases h with
  | cancelIntent => rfl
  | cancelled => rfl
  | claimed | cancelledAtClaim | renewed | updated | finished | released | failedPending
  | reconciled => exact hintent

theorem fenced (hchange : row'.progress ≠ row.progress ∨ row'.result ≠ row.result) :
    (∃ workerId, FencedBy e taskId row workerId) ∨ FailsUnowned e taskId row row' := by
  cases h with
  | claimed | cancelledAtClaim | cancelIntent | cancelled | renewed =>
    rcases hchange with hprogress | hresult
    · exact absurd rfl hprogress
    · exact absurd rfl hresult
  | @updated workerId _ hop hlive =>
    refine .inl ⟨workerId, by rw [hop]; rfl, hlive, ?_⟩
    simpa [TaskEvent.lastReading, hop] using hlive
  | @finished workerId _ hop hlive hstill =>
    refine .inl ⟨workerId, by rw [hop]; rfl, hlive, ?_⟩
    simpa [TaskEvent.lastReading, hop] using hstill
  | @released workerId _ _ _ hop hlast hlive hstill =>
    refine .inl ⟨workerId, by rw [hop]; rfl, hlive, ?_⟩
    simpa [TaskEvent.lastReading, hop, ← hlast] using hstill
  | failedPending hop hpending => exact .inr ⟨rfl, rfl, rfl, .inl ⟨_, _, hop, hpending⟩⟩
  | reconciled hop hexpired => exact .inr ⟨rfl, rfl, rfl, .inr ⟨_, _, hop, hexpired⟩⟩

theorem finished_result {workerId : String} {call : FinishCall D}
    (hop : e.op = .finishOwned taskId workerId call)
    (hintent : row.cancelRequested) : row'.result = row.result := by
  cases h with
  | updated hop' => rw [hop] at hop'; cases hop'
  | @finished _ call _ _ _ =>
    simp [TaskRow.finished, (effective_of_cancelRequested call hintent).2]
  | claimed | cancelledAtClaim | cancelIntent | cancelled | renewed | released | failedPending
  | reconciled => rfl

end

end TaskWrite

/-! ## Counting claims -/

/-- The transaction is a claim of the task that its worker wins. -/
def winsClaim (taskId : TaskId) (s : TaskStore D) (e : TaskEvent D) : Bool :=
  match e.op with
  | .claim claimed workerId leaseSeconds maxRunning =>
    claimed == taskId &&
      match claim s claimed workerId leaseSeconds maxRunning e.now with
      | .ok ((_, won), _) => won
      | .error _ => false
  | _ => false

/-- How often the task is claimed in a run. -/
def claimCount (taskId : TaskId) : TaskStore D → List (TaskEvent D) → Nat
  | _, [] => 0
  | s, e :: es => (winsClaim taskId s e).toNat + claimCount taskId (taskStep s e) es

/-- The attempts of a task; none if there is no such task. -/
def attempts (taskId : TaskId) (s : TaskStore D) : Nat :=
  ((s.tasks.get taskId).map TaskRow.attemptCount).getD 0

theorem claim_attempts (hop : e.op = .claim taskId workerId leaseSeconds maxRunning) :
    attempts taskId (taskStep s e) = attempts taskId s + (winsClaim taskId s e).toNat := by
  simp only [taskStep, winsClaim, hop, claim, beq_self_eq_true, Bool.true_and]
  split_ifs
  · rfl
  · rfl
  · rfl
  · rfl
  · cases hrow : s.tasks.get taskId with
    | none => simp [TaskStore.after]
    | some row =>
      simp only
      split_ifs
      · rfl
      · simp [TaskStore.after, attempts, get_put, hrow, TaskRow.cancelledPending]
      · simp [TaskStore.after, attempts, get_put, hrow, TaskRow.claimed]

theorem attempts_of_not_claim (hop : ∀ workerId leaseSeconds maxRunning,
      e.op ≠ .claim taskId workerId leaseSeconds maxRunning) :
    attempts taskId (taskStep s e) = attempts taskId s := by
  obtain ⟨hrows, hfresh⟩ := taskStep_write s e
  unfold attempts
  cases hrow : s.tasks.get taskId with
  | none =>
    cases hrow' : (taskStep s e).tasks.get taskId with
    | none => rfl
    | some row' =>
      obtain ⟨data, -, rfl⟩ := hfresh taskId row' hrow hrow'
      rfl
  | some row =>
    obtain ⟨row', hrow', rfl | ⟨_, hwrite⟩⟩ := hrows taskId row hrow
    · rw [hrow']
    · rw [hrow']
      cases hwrite with
      | claimed hclaim => exact absurd hclaim (hop _ _ _)
      | cancelledAtClaim | cancelIntent | cancelled | renewed | updated | finished | released
      | failedPending | reconciled => rfl

theorem taskStep_attempts (taskId : TaskId) (s : TaskStore D) (e : TaskEvent D) :
    attempts taskId (taskStep s e) = attempts taskId s + (winsClaim taskId s e).toNat := by
  by_cases hop : ∃ workerId leaseSeconds maxRunning,
      e.op = .claim taskId workerId leaseSeconds maxRunning
  · obtain ⟨workerId, leaseSeconds, maxRunning, hop⟩ := hop
    exact claim_attempts hop
  · push Not at hop
    rw [attempts_of_not_claim hop]
    have hlost : winsClaim taskId s e = false := by
      unfold winsClaim
      split
      · rename_i claimed _ _ _ hclaim
        have hne : claimed ≠ taskId := by
          rintro rfl
          exact hop _ _ _ hclaim
        simp [hne]
      · rfl
    simp [hlost]

theorem exec_attempts (taskId : TaskId) (s : TaskStore D) (es : List (TaskEvent D)) :
    attempts taskId (Transition.exec taskStep s es) =
      attempts taskId s + claimCount taskId s es := by
  induction es generalizing s with
  | nil => rfl
  | cons e es ih =>
    rw [Transition.exec_cons, ih, taskStep_attempts, claimCount, Nat.add_assoc]

/-! ## Runs -/

/-- Every row of the table satisfies the invariant. -/
def AllSound (s : TaskStore D) : Prop :=
  ∀ taskId row, s.tasks.get taskId = some row → Sound row

theorem taskStep_sound (s : TaskStore D) (e : TaskEvent D) (hs : AllSound s) :
    AllSound (taskStep s e) := by
  obtain ⟨hrows, hfresh⟩ := taskStep_write s e
  intro taskId row' hrow'
  cases hrow : s.tasks.get taskId with
  | none =>
    obtain ⟨data, -, rfl⟩ := hfresh taskId row' hrow hrow'
    exact sound_row data e.now
  | some row =>
    obtain ⟨written, hwritten, hcase⟩ := hrows taskId row hrow
    rw [hrow'] at hwritten
    cases hwritten
    rcases hcase with rfl | ⟨_, hwrite⟩
    · exact hs taskId _ hrow
    · exact hwrite.sound (hs taskId row hrow)

/-- What a run keeps of the tasks that exist when it starts. -/
def Keeps (s s' : TaskStore D) : Prop :=
  ∀ taskId row, s.tasks.get taskId = some row →
    ∃ row', s'.tasks.get taskId = some row' ∧ (row.status.isTerminal → row' = row) ∧
      (row.cancelRequested → row'.cancelRequested)

theorem Keeps.trans {t u : TaskStore D} (h₁ : Keeps s t) (h₂ : Keeps t u) : Keeps s u := by
  intro taskId row hrow
  obtain ⟨row₁, hrow₁, hfrozen₁, hintent₁⟩ := h₁ taskId row hrow
  obtain ⟨row₂, hrow₂, hfrozen₂, hintent₂⟩ := h₂ taskId row₁ hrow₁
  refine ⟨row₂, hrow₂, ?_, fun hintent => hintent₂ (hintent₁ hintent)⟩
  intro hterminal
  have hsame := hfrozen₁ hterminal
  subst hsame
  exact hfrozen₂ hterminal

theorem taskStep_keeps (s : TaskStore D) (e : TaskEvent D) : Keeps s (taskStep s e) := by
  intro taskId row hrow
  obtain ⟨row', hrow', rfl | ⟨_, hwrite⟩⟩ := (taskStep_write s e).row taskId row hrow
  · exact ⟨row', hrow', fun _ => rfl, id⟩
  · refine ⟨row', hrow', ?_, hwrite.cancelRequested⟩
    intro hterminal
    rw [hwrite.not_terminal] at hterminal
    cases hterminal

theorem exec_keeps (s : TaskStore D) (es : List (TaskEvent D)) :
    Keeps s (Transition.exec taskStep s es) :=
  Transition.exec_rel taskStep (R := Keeps) (fun _ _ row hrow => ⟨row, hrow, fun _ => rfl, id⟩)
    Keeps.trans taskStep_keeps s es

/-! ## The lifecycle -/

/-- A database without tasks. -/
def emptyStore (domain : D) : TaskStore D where
  tasks := .empty
  domain := domain

theorem exec_sound (domain : D) (es : List (TaskEvent D)) :
    AllSound (Transition.exec taskStep (emptyStore domain) es) := by
  refine Transition.exec_invariant taskStep taskStep_sound ?_ es
  intro taskId row hrow
  simp [emptyStore] at hrow

/-- The operation of `run_owned_transaction` commits only if its caller owns the task with an
unexpired lease before and after it. -/
theorem runOwnedTransaction_fenced (s : TaskStore D)
    (hop : e.op = .runOwnedTransaction taskId workerId operation) :
    taskStep s e = s ∨ ∃ row domain, s.tasks.get taskId = some row ∧
      FencedBy e taskId row workerId ∧ operation s.domain taskId row = .ok domain ∧
      taskStep s e = { s with domain := domain } := by
  simp only [taskStep, hop, runOwnedTransaction]
  split
  · exact .inl rfl
  · rename_i row hrow
    split
    · exact .inl rfl
    · rename_i hlive
      split
      · exact .inl rfl
      · rename_i domain hran
        split
        · exact .inl rfl
        · rename_i hstill
          refine .inr ⟨row, domain, hrow, ⟨by rw [hop]; rfl, by simpa using hlive, ?_⟩, ?_, rfl⟩
          · simpa [TaskEvent.lastReading, hop] using hstill
          · simp only [runHook] at hran
            split at hran
            · cases hran
            · rename_i hresult
              cases hran
              exact hresult

/-- The lifecycle of durable tasks, along every run from a database without tasks, whatever the
workers and the clock: a task is claimed at most once, its status follows the graph, a task
that ended is released and never written again, a running task has a worker and a lease,
progress and results are written under the lease or by failing a task without an owner,
the operations of `run_owned_transaction` commit under the lease, and a requested
cancellation excludes success and a result of `finish_owned`. -/
theorem task_lifecycle (domain : D) (es : List (TaskEvent D)) (taskId : TaskId) :
    let s := Transition.exec taskStep (emptyStore domain) es
    claimCount taskId (emptyStore domain) es ≤ 1 ∧
    (∀ e workerId operation, e.op = .runOwnedTransaction taskId workerId operation →
      taskStep s e = s ∨ ∃ row domain, s.tasks.get taskId = some row ∧
        FencedBy e taskId row workerId ∧ operation s.domain taskId row = .ok domain ∧
        taskStep s e = { s with domain := domain }) ∧
    (∀ e row', s.tasks.get taskId = none → (taskStep s e).tasks.get taskId = some row' →
      row'.status = .pending) ∧
    ∀ row, s.tasks.get taskId = some row →
      row.attemptCount = claimCount taskId (emptyStore domain) es ∧
      (row.status = .running → row.workerId.isSome ∧ row.leaseExpiresAt.isSome) ∧
      (row.status.isTerminal →
        (row.workerId = none ∧ row.heartbeatAt = none ∧ row.leaseExpiresAt = none ∧
          row.dedupeKey = none) ∧
        ∀ es', (Transition.exec taskStep s es').tasks.get taskId = some row) ∧
      (∀ e, ∃ row', (taskStep s e).tasks.get taskId = some row' ∧
        (row'.status = row.status ∨ row'.status ∈ successors row.status) ∧
        (row'.progress ≠ row.progress ∨ row'.result ≠ row.result →
          (∃ workerId, FencedBy e taskId row workerId) ∨ FailsUnowned e taskId row row')) ∧
      (row.cancelRequested → ∀ es', ∃ row',
        (Transition.exec taskStep s es').tasks.get taskId = some row' ∧ row'.status ≠ .success ∧
        ∀ e workerId call, e.op = .finishOwned taskId workerId call → ∃ row'',
          (Transition.exec taskStep s (es' ++ [e])).tasks.get taskId = some row'' ∧
            row''.result = row'.result) := by
  intro s
  have hsound : AllSound s := exec_sound domain es
  have hcount : attempts taskId s = claimCount taskId (emptyStore domain) es := by
    have hnone : attempts taskId (emptyStore domain) = 0 := by simp [attempts, emptyStore]
    rw [exec_attempts, hnone, Nat.zero_add]
  refine ⟨?_, fun e workerId operation hop => runOwnedTransaction_fenced s hop, ?_, ?_⟩
  · rw [← hcount]
    unfold attempts
    cases hrow : s.tasks.get taskId with
    | none => exact Nat.zero_le 1
    | some row => exact (hsound taskId row hrow).attempts
  · intro e row' hnone hrow'
    obtain ⟨data, -, rfl⟩ := (taskStep_write s e).fresh taskId row' hnone hrow'
    rfl
  · intro row hrow
    refine ⟨?_, (hsound taskId row hrow).running, ?_, ?_, ?_⟩
    · rw [← hcount]
      simp [attempts, hrow]
    · intro hterminal
      refine ⟨(hsound taskId row hrow).terminal hterminal, fun es' => ?_⟩
      obtain ⟨row', hrow', hfrozen, -⟩ := exec_keeps s es' taskId row hrow
      rw [hrow', hfrozen hterminal]
    · intro e
      obtain ⟨row', hrow', rfl | ⟨_, hwrite⟩⟩ := (taskStep_write s e).row taskId row hrow
      · exact ⟨row', hrow', .inl rfl, by simp⟩
      · exact ⟨row', hrow', hwrite.moves, hwrite.fenced⟩
    · intro hintent es'
      obtain ⟨row', hrow', -, hkept⟩ := exec_keeps s es' taskId row hrow
      have hstill : AllSound (Transition.exec taskStep s es') :=
        Transition.exec_invariant taskStep taskStep_sound hsound es'
      refine ⟨row', hrow', ?_, ?_⟩
      · intro hsuccess
        have hclear := (hstill taskId row' hrow').success hsuccess
        rw [hkept hintent] at hclear
        cases hclear
      · intro e workerId call hop
        rw [Transition.exec_append, Transition.exec_cons, Transition.exec_nil]
        obtain ⟨row'', hrow'', rfl | ⟨_, hwrite⟩⟩ :=
          (taskStep_write (Transition.exec taskStep s es') e).row taskId row' hrow'
        · exact ⟨row'', hrow'', rfl⟩
        · exact ⟨row'', hrow'', hwrite.finished_result hop (hkept hintent)⟩

/-- The data of a task without a handler. -/
def orphanData : TaskData where
  name := "parse"
  type := "knowledge_parse"
  payload := "\x7b\x7d"
  handlerVersion := 1
  dedupeKey := none
  timeoutSeconds := 60

/-- Failing a task that nobody owns writes its progress: a task whose handler cannot be rebuilt
goes from progress 0 to 100 without a worker. -/
theorem failing_pending_writes_progress :
    ¬ ∀ (es : List (TaskEvent Unit)) (e : TaskEvent Unit) (taskId : TaskId) (row row' : TaskRow),
      (Transition.exec taskStep (emptyStore ()) es).tasks.get taskId = some row →
      (taskStep (Transition.exec taskStep (emptyStore ()) es) e).tasks.get taskId = some row' →
      row'.progress ≠ row.progress ∨ row'.result ≠ row.result →
        ∃ workerId, FencedBy e taskId row workerId := by
  intro h
  let row := orphanData.row 0
  have hwrite : ((row.failedPending "handler_missing" 1).progress ≠ row.progress) := by
    decide
  obtain ⟨workerId, hcaller, -⟩ :=
    h [⟨0, 0, .create "t" orphanData⟩] ⟨1, 1, .failPending "t" "handler_missing" none⟩ "t"
      row (row.failedPending "handler_missing" 1) (by decide +kernel) (by decide +kernel)
      (.inl hwrite)
  cases hcaller

/-! ## Tasks that have lost their worker -/

/-- What may become of a running task whose lease is over: it waits as its worker has left it, or
the reconciliation has failed it. -/
structure Abandoned (t : Time) (row row' : TaskRow) : Prop where
  result : row'.result = row.result
  fate : expired row' t ∧ row'.workerId = row.workerId ∧ row'.progress = row.progress ∧
      row'.message = row.message ∨
    row'.status = .failed ∧ row'.error = some leaseExpiredError

section

variable {t now : Time} {row row' : TaskRow}

/-- A lease that is over stays over. -/
theorem expired_mono (h : expired row t) (ht : t ≤ now) : expired row now := by
  simp only [expired, Bool.and_eq_true, Bool.not_eq_true'] at h ⊢
  refine ⟨h.1, ?_⟩
  have hover := h.2
  cases hexpiry : row.leaseExpiresAt with
  | none => rfl
  | some expiry =>
    simp only [leaseLive, hexpiry, decide_eq_false_iff_not, not_lt] at hover ⊢
    exact hover.trans ht

theorem Abandoned.not_isLiveOwner (h : Abandoned t row row') (ht : t ≤ now) (workerId : String) :
    row'.isLiveOwner workerId now = false := by
  rcases h.fate with ⟨hexpired, -⟩ | ⟨hfailed, -⟩
  · have hover := expired_mono hexpired ht
    simp only [expired, Bool.and_eq_true, Bool.not_eq_true'] at hover
    simp [TaskRow.isLiveOwner, hover.2]
  · simp [TaskRow.isLiveOwner, hfailed]

theorem Abandoned.write {e : TaskEvent D} {taskId : TaskId} {row'' : TaskRow}
    {hook : Option (TaskHook D)} (h : Abandoned t row row') (ht : t ≤ e.now)
    (hwrite : TaskWrite e taskId row' row'' hook) : Abandoned t row row'' := by
  have hlive := hwrite.not_terminal
  rcases h.fate with ⟨hexpired, hworker, hprogress, hmessage⟩ | ⟨hfailed, -⟩
  · have hrunning := expired_running hexpired
    have hrefused := fun workerId => h.not_isLiveOwner ht workerId
    cases hwrite with
    | claimed _ hpending _ => simp [hrunning] at hpending
    | cancelledAtClaim _ hpending _ => simp [hrunning] at hpending
    | cancelIntent _ => exact ⟨h.result, .inl ⟨hexpired, hworker, hprogress, hmessage⟩⟩
    | cancelled hpending _ => simp [hrunning] at hpending
    | renewed hlive => simp [hrefused] at hlive
    | updated _ hlive => simp [hrefused] at hlive
    | finished _ hlive _ => simp [hrefused] at hlive
    | released _ _ hlive _ => simp [hrefused] at hlive
    | failedPending _ hpending => simp [hrunning] at hpending
    | reconciled _ _ => exact ⟨h.result, .inr ⟨rfl, rfl⟩⟩
  · rw [hfailed] at hlive
    cases hlive

variable {s s' : TaskStore D} {taskId : TaskId}

theorem taskStep_refused {e : TaskEvent D} {workerId : String}
    (hrow : s.tasks.get taskId = some row) (hcaller : e.op.caller = some (taskId, workerId))
    (hlost : row.isLiveOwner workerId e.now = false) : taskStep s e = s := by
  obtain ⟨now, later, op⟩ := e
  replace hlost : row.isLiveOwner workerId now = false := hlost
  cases op <;> simp only [TaskOp.caller, Option.some.injEq, Prod.mk.injEq, reduceCtorEq] at hcaller
  case renewLease =>
    obtain ⟨rfl, rfl⟩ := hcaller
    simp [taskStep, renewLease, hrow, hlost, TaskStore.after]
  case updateOwned =>
    obtain ⟨rfl, rfl⟩ := hcaller
    simp [taskStep, updateOwned, hrow, hlost, TaskStore.after]
  case runOwnedTransaction =>
    obtain ⟨rfl, rfl⟩ := hcaller
    simp [taskStep, runOwnedTransaction, hrow, hlost, TaskStore.after]
  case finishOwned =>
    obtain ⟨rfl, rfl⟩ := hcaller
    simp only [taskStep, finishOwned, hrow, hlost, Bool.not_false, if_true]
    split_ifs <;> rfl
  case releaseInterruptedOwner =>
    obtain ⟨rfl, rfl⟩ := hcaller
    simp [taskStep, releaseInterruptedOwner, hrow, hlost, TaskStore.after]

theorem reconcileRows_visited {beforeFail : Option (String → TaskHook D)} {scan : List TaskId}
    {acc acc' : List (TaskId × TaskStatus × Nat) × TaskStore D}
    (h : reconcileRows beforeFail now acc scan = .ok acc') (hmem : taskId ∈ scan)
    (hrow : acc.2.tasks.get taskId = some row) :
    ∃ row', acc'.2.tasks.get taskId = some row' ∧ expired row' now = false := by
  induction scan generalizing acc row with
  | nil => cases hmem
  | cons visited rest ih =>
    rw [reconcileRows] at h
    split at h
    · cases h
    · rename_i acc₁ hvisit
      obtain ⟨row₁, hrow₁, hsettled⟩ : ∃ row₁, acc₁.2.tasks.get taskId = some row₁ ∧
          (taskId = visited → expired row₁ now = false) := by
        unfold reconcileVisit at hvisit
        split at hvisit
        · rename_i hnone
          cases hvisit
          exact ⟨row, hrow, fun hself => by simp [← hself, hrow] at hnone⟩
        · rename_i r hr
          split at hvisit
          · rename_i hlive
            cases hvisit
            refine ⟨row, hrow, fun hself => ?_⟩
            rw [← hself, hrow] at hr
            cases hr
            simpa using hlive
          · split at hvisit
            · cases hvisit
            · cases hvisit
              simp only [get_put]
              by_cases hself : taskId = visited
              · exact ⟨r.failInterrupted leaseExpiredError now, by simp [hself, hr], fun _ => rfl⟩
              · exact ⟨row, by simp [hself, hrow], fun h => absurd h hself⟩
      rcases List.mem_cons.mp hmem with hself | hlater
      · obtain ⟨row', hrow', hsame | ⟨hexpired, -⟩⟩ := (reconcileRows_spec h).1 taskId row₁ hrow₁
        · exact ⟨row', hrow', hsame ▸ hsettled hself⟩
        · rw [hsettled hself] at hexpired
          cases hexpired
      · exact ih h hlater hrow₁

end

/-- After the lease of a running task has run out, whatever is called: the task keeps its result
and its progress until the reconciliation fails it, every call of a worker on it is refused, and a
reconciliation that visits it and does not raise leaves it failed. -/
theorem abandoned_task_only_fails {t : Time} (s : TaskStore D) (taskId : TaskId) (row : TaskRow)
    (hrow : s.tasks.get taskId = some row) (hexpired : expired row t) (es : List (TaskEvent D))
    (hlate : Transition.Guarded taskStep (fun _ e => t ≤ e.now) s es) :
    let s' := Transition.exec taskStep s es
    (∃ row', s'.tasks.get taskId = some row' ∧ Abandoned t row row') ∧
    (∀ e workerId, e.op.caller = some (taskId, workerId) → t ≤ e.now → taskStep s' e = s') ∧
    ∀ scan beforeFail now reconciled s'', t ≤ now → taskId ∈ scan →
      reconcileExpiredLeases s' scan beforeFail now = .ok (reconciled, s'') →
      ∃ row'', s''.tasks.get taskId = some row'' ∧ row''.status = .failed ∧
        row''.result = row.result := by
  intro s'
  have hrun : ∃ row', s'.tasks.get taskId = some row' ∧ Abandoned t row row' := by
    refine Transition.exec_invariant_of_guarded taskStep
      (P := fun s => ∃ row', s.tasks.get taskId = some row' ∧ Abandoned t row row') ?_
      ⟨row, hrow, rfl, .inl ⟨hexpired, rfl, rfl, rfl⟩⟩ hlate
    · intro s e ht h
      obtain ⟨row', hrow', hlost⟩ := h
      obtain ⟨row'', hrow'', rfl | ⟨_, hwrite⟩⟩ := (taskStep_write s e).row taskId row' hrow'
      · exact ⟨row'', hrow'', hlost⟩
      · exact ⟨row'', hrow'', hlost.write ht hwrite⟩
  refine ⟨hrun, ?_, ?_⟩
  · intro e workerId hcaller ht
    obtain ⟨row', hrow', hlost⟩ := hrun
    exact taskStep_refused hrow' hcaller (hlost.not_isLiveOwner ht workerId)
  · intro scan beforeFail now reconciled s'' ht hmem hreconcile
    obtain ⟨row', hrow', hlost⟩ := hrun
    obtain ⟨row'', hrow'', hsettled⟩ := reconcileRows_visited hreconcile hmem hrow'
    obtain ⟨r, hr, hsame | ⟨-, rfl⟩⟩ := (reconcileRows_spec hreconcile).1 taskId row' hrow'
    · rw [hr, Option.some.injEq] at hrow''
      subst hrow'' hsame
      rcases hlost.fate with ⟨hstill, -⟩ | ⟨hfailed, -⟩
      · rw [expired_mono hstill ht] at hsettled
        cases hsettled
      · exact ⟨r, hr, hfailed, hlost.result⟩
    · exact ⟨_, hr, rfl, hlost.result⟩

/-- A task whose worker has lost its lease. -/
def abandonedTask : TaskStore Unit where
  tasks :=
    { rows := [("t", (orphanData.row 0).claimed "worker" 5 1)]
      nodupKeys := by decide }
  domain := ()

theorem abandoned_task_only_fails_abandonedTask :
    taskStep (taskStep abandonedTask ⟨7, 7, .requestCancel "t" none⟩)
        ⟨8, 8, .renewLease "t" "worker" 60⟩ =
      taskStep abandonedTask ⟨7, 7, .requestCancel "t" none⟩ :=
  (abandoned_task_only_fails (t := 6) abandonedTask "t" _ rfl (by decide)
    [⟨7, 7, .requestCancel "t" none⟩] ⟨by decide, trivial⟩).2.1 _ "worker" rfl (by decide)

end TaskRepository

end Yuanlei
