import Mathlib.Data.Rat.Defs
import Yuanlei.Lib.Transition
import Yuanlei.AgentRun.Rows

/-!
# Durable tasks

The table of durable tasks and the transactions of `TaskRepository`.  Every transaction locks
the rows it writes until it ends, so it is one step; the clock is read when the row is
locked and, after a hook has run, once more.  Hooks are functions on the rest of the
database that read the task; a hook that raises rolls the transaction back.

Main results:

- `TaskRow.isLiveOwner`: the fence of every write of a worker.
- `taskStep`: one transaction.
-/

namespace Yuanlei

/-! ## Rows -/

abbrev TaskId := String

/-- The column `tasks.status`. -/
inductive TaskStatus where
  | pending
  | running
  | success
  | failed
  | cancelled
deriving DecidableEq

/-- The stored text of a status. -/
def TaskStatus.text : TaskStatus → String
  | pending => "pending"
  | running => "running"
  | success => "success"
  | failed => "failed"
  | cancelled => "cancelled"

/-- Membership in `TERMINAL_TASK_STATUSES`. -/
def TaskStatus.isTerminal : TaskStatus → Bool
  | success | failed | cancelled => true
  | pending | running => false

/-- A row of `tasks`; its id is the key of the table.  JSON columns hold their text. -/
structure TaskRow where
  name : String
  type : String
  status : TaskStatus
  progress : ℚ
  message : String
  payload : Option String
  result : Option String
  error : Option String
  cancelRequested : Bool
  handlerVersion : Int
  dedupeKey : Option String
  attemptCount : Nat
  workerId : Option String
  heartbeatAt : Option Time
  leaseExpiresAt : Option Time
  timeoutSeconds : ℚ
  createdAt : Time
  updatedAt : Time
  startedAt : Option Time
  completedAt : Option Time
deriving DecidableEq

namespace TaskRow

/-- `_is_live_owner` on a row that exists. -/
def isLiveOwner (row : TaskRow) (workerId : String) (now : Time) : Bool :=
  row.status == .running && row.workerId == some workerId && leaseLive row.leaseExpiresAt now

/-- `_clear_execution` with `clear_dedupe`. -/
def clearExecution (row : TaskRow) : TaskRow :=
  { row with workerId := none, heartbeatAt := none, leaseExpiresAt := none, dedupeKey := none }

/-- `_fail_interrupted_task`. -/
def failInterrupted (row : TaskRow) (error : String) (now : Time) : TaskRow :=
  { row.clearExecution with
    status := .failed
    progress := 100
    message := "执行中断，无法安全自动恢复"
    error := some error
    completedAt := some now
    updatedAt := now }

/-- What `fail_pending` writes. -/
def failedPending (row : TaskRow) (error : String) (now : Time) : TaskRow :=
  { row with
    status := .failed
    progress := 100
    message := "任务 Handler 无法重建"
    error := some error
    completedAt := some now
    updatedAt := now
    dedupeKey := none }

/-- The intent that `request_cancel` writes. -/
def cancelIntent (row : TaskRow) (now : Time) : TaskRow :=
  { row with cancelRequested := true, updatedAt := now }

/-- What `request_cancel` and `claim` write on a task that has not started. -/
def cancelledPending (row : TaskRow) (message : String) (now : Time) : TaskRow :=
  { row with
    status := .cancelled
    message := message
    completedAt := some now
    updatedAt := now
    dedupeKey := none }

/-- What `claim` writes. -/
def claimed (row : TaskRow) (workerId : String) (leaseSeconds : Int) (now : Time) : TaskRow :=
  { row with
    status := .running
    workerId := some workerId
    heartbeatAt := some now
    leaseExpiresAt := some (now + leaseSeconds)
    attemptCount := row.attemptCount + 1
    startedAt := row.startedAt.orElse fun _ => some now
    updatedAt := now
    message := "任务开始执行" }

/-- What `renew_lease` writes. -/
def renewed (row : TaskRow) (leaseSeconds : Int) (now : Time) : TaskRow :=
  { row with
    heartbeatAt := some now
    leaseExpiresAt := some (now + leaseSeconds)
    updatedAt := now }

/-- What `finish_owned` writes; a result that is not set is left as it is. -/
def finished (row : TaskRow) (status : TaskStatus) (message : String)
    (result : Option (Option String)) (error : Option String) (now : Time) : TaskRow :=
  { row.clearExecution with
    status := status
    progress := 100
    message := message
    result := result.getD row.result
    error := error
    completedAt := some now
    updatedAt := now }

end TaskRow

/-- The data that a task context passes to `update_owned`. -/
structure TaskUpdate where
  progress : Option ℚ := none
  message : Option String := none
  result : Option (Option String) := none

/-- What `update_owned` writes. -/
def TaskRow.updated (row : TaskRow) (data : TaskUpdate) (now : Time) : TaskRow :=
  { row with
    progress := data.progress.getD row.progress
    message := data.message.getD row.message
    result := data.result.getD row.result
    updatedAt := now }

/-- The values that `_build_task_data` takes from its caller. -/
structure TaskData where
  name : String
  type : String
  payload : String
  handlerVersion : Int
  dedupeKey : Option String
  timeoutSeconds : ℚ

/-- The row of a new task. -/
def TaskData.row (data : TaskData) (now : Time) : TaskRow where
  name := data.name
  type := data.type
  status := .pending
  progress := 0
  message := "任务等待 worker 执行"
  payload := some data.payload
  result := none
  error := none
  cancelRequested := false
  handlerVersion := data.handlerVersion
  dedupeKey := data.dedupeKey
  attemptCount := 0
  workerId := none
  heartbeatAt := none
  leaseExpiresAt := none
  timeoutSeconds := data.timeoutSeconds
  createdAt := now
  updatedAt := now
  startedAt := none
  completedAt := none

/-! ## Transactions -/

/-- The tasks and the rest of the database. -/
structure TaskStore (D : Type) where
  tasks : Table TaskId TaskRow
  domain : D

inductive TaskError where
  | valueError (message : String)
  | integrityError
  | hookError (message : String)
deriving DecidableEq

/-- A transaction returns a value and the state that it commits, or raises. -/
abbrev TaskTransaction (D α : Type) := Except TaskError (α × TaskStore D)

/-- The state after the session context has committed or rolled back. -/
def TaskStore.after {D α : Type} (s : TaskStore D) : TaskTransaction D α → TaskStore D
  | .ok (_, s') => s'
  | .error _ => s

/-- A callback on the session of a transaction. -/
abbrev TaskHook (D : Type) := D → TaskId → TaskRow → Except String D

/-- Run a callback if there is one. -/
def runHook {D : Type} (hook : Option (TaskHook D)) (domain : D) (taskId : TaskId)
    (row : TaskRow) : Except TaskError D :=
  match hook with
  | none => .ok domain
  | some hook =>
    match hook domain taskId row with
    | .error message => .error (.hookError message)
    | .ok domain => .ok domain

/-- Replace the row of a task. -/
def TaskStore.put {D : Type} (s : TaskStore D) (taskId : TaskId) (row : TaskRow) : TaskStore D :=
  { s with tasks := s.tasks.modify taskId fun _ => row }

variable {D : Type}

namespace TaskRepository

/-- The constraint `uq_tasks_active_dedupe`. -/
def dedupeConflict (s : TaskStore D) (row : TaskRow) : Bool :=
  s.tasks.rows.any fun e => e.2.type == row.type && row.dedupeKey.isSome &&
    e.2.dedupeKey == row.dedupeKey

/-- `create`: a conflict of the dedupe key returns the task that holds it. -/
def create (s : TaskStore D) (taskId : TaskId) (row : TaskRow) :
    TaskTransaction D (TaskId × TaskRow × Bool) :=
  match (if dedupeConflict s row then none else s.tasks.insert taskId row) with
  | some tasks => .ok ((taskId, row, true), { s with tasks := tasks })
  | none =>
    match row.dedupeKey.filter (· ≠ "") with
    | none => .error .integrityError
    | some key =>
      match s.tasks.rows.find? fun e =>
          e.2.type == row.type && e.2.dedupeKey == some key && !e.2.status.isTerminal with
      | none => .error .integrityError
      | some (id, existing) => .ok ((id, existing, false), s)

def failPending (s : TaskStore D) (taskId : TaskId) (error : String)
    (beforeFail : Option (TaskHook D)) (now : Time) : TaskTransaction D Bool :=
  match s.tasks.get taskId with
  | none => .ok (false, s)
  | some row =>
    if row.status ≠ .pending then .ok (false, s)
    else
      match runHook beforeFail s.domain taskId row with
      | .error e => .error e
      | .ok domain =>
        .ok (true, { s with domain := domain }.put taskId (row.failedPending error now))

def requestCancel (s : TaskStore D) (taskId : TaskId) (beforeCancel : Option (TaskHook D))
    (now : Time) : TaskTransaction D (Option TaskRow) :=
  match s.tasks.get taskId with
  | none => .ok (none, s)
  | some row =>
    if row.status.isTerminal then .ok (none, s)
    else
      let row := row.cancelIntent now
      if row.status = .pending then
        match runHook beforeCancel s.domain taskId row with
        | .error e => .error e
        | .ok domain =>
          let row := row.cancelledPending "任务已取消" now
          .ok (some row, { s with domain := domain }.put taskId row)
      else .ok (some row, s.put taskId row)

/-- The number of running tasks. -/
def runningCount (s : TaskStore D) : Nat :=
  s.tasks.rows.countP fun e => e.2.status == .running

def claim (s : TaskStore D) (taskId : TaskId) (workerId : String) (leaseSeconds : Int)
    (maxRunning : Option Int) (now : Time) : TaskTransaction D (Option TaskRow × Bool) :=
  if PyText.strip workerId = "" then .error (.valueError "worker_id 不能为空")
  else if leaseSeconds ≤ 0 then .error (.valueError "lease_seconds 必须大于 0")
  else if maxRunning.any (· ≤ 0) then .error (.valueError "max_running 必须大于 0")
  else if maxRunning.any (· ≤ (runningCount s : Int)) then .ok ((s.tasks.get taskId, false), s)
  else
    match s.tasks.get taskId with
    | none => .ok ((none, false), s)
    | some row =>
      if row.status ≠ .pending then .ok ((some row, false), s)
      else if row.cancelRequested then
        let row := row.cancelledPending "任务在执行前已取消" now
        .ok ((some row, false), s.put taskId row)
      else
        let row := row.claimed workerId leaseSeconds now
        .ok ((some row, true), s.put taskId row)

def renewLease (s : TaskStore D) (taskId : TaskId) (workerId : String) (leaseSeconds : Int)
    (now : Time) : TaskTransaction D (Bool × Bool) :=
  match s.tasks.get taskId with
  | none => .ok ((false, false), s)
  | some row =>
    if !row.isLiveOwner workerId now then .ok ((false, false), s)
    else .ok ((true, row.cancelRequested), s.put taskId (row.renewed leaseSeconds now))

/-- `run_owned_transaction`, with a reading of the clock before and after the operation. -/
def runOwnedTransaction (s : TaskStore D) (taskId : TaskId) (workerId : String)
    (operation : TaskHook D) (now later : Time) : TaskTransaction D Bool :=
  match s.tasks.get taskId with
  | none => .ok (false, s)
  | some row =>
    if !row.isLiveOwner workerId now then .ok (false, s)
    else
      match runHook (some operation) s.domain taskId row with
      | .error e => .error e
      | .ok domain =>
        if !row.isLiveOwner workerId later then .ok (false, s)
        else .ok (true, { s with domain := domain })

def updateOwned (s : TaskStore D) (taskId : TaskId) (workerId : String) (data : TaskUpdate)
    (now : Time) : TaskTransaction D Bool :=
  match s.tasks.get taskId with
  | none => .ok (false, s)
  | some row =>
    if !row.isLiveOwner workerId now then .ok (false, s)
    else .ok (true, s.put taskId (row.updated data now))

/-- The arguments of `finish_owned`. -/
structure FinishArgs (D : Type) where
  status : TaskStatus
  message : String
  result : Option (Option String)
  error : Option String
  beforeFinish : Option (TaskHook D)
  beforeCancel : Option (TaskHook D)

/-- What is left of the arguments when the cancellation of the task was requested. -/
def FinishArgs.cancelled (args : FinishArgs D) : FinishArgs D :=
  { args with
    status := .cancelled
    message := "任务已取消"
    result := none
    beforeFinish := args.beforeCancel.orElse fun _ => args.beforeFinish }

/-- The arguments that `finish_owned` goes on with. -/
def FinishArgs.effective (args : FinishArgs D) (row : TaskRow) : FinishArgs D :=
  if row.cancelRequested && args.status != .cancelled then args.cancelled else args

/-- `finish_owned`, with a reading of the clock before and after the hook. -/
def finishOwned (s : TaskStore D) (taskId : TaskId) (workerId : String) (args : FinishArgs D)
    (now later : Time) : TaskTransaction D Bool :=
  if !args.status.isTerminal then
    .error (.valueError ("非法 Task 终态: " ++ args.status.text))
  else
    match s.tasks.get taskId with
    | none => .ok (false, s)
    | some row =>
      if !row.isLiveOwner workerId now then .ok (false, s)
      else
        let args := args.effective row
        match runHook args.beforeFinish s.domain taskId row with
        | .error e => .error e
        | .ok domain =>
          if !row.isLiveOwner workerId later then .ok (false, s)
          else
            .ok (true, { s with domain := domain }.put taskId
              (row.finished args.status args.message args.result args.error later))

/-- `release_interrupted_owner`; without a hook the clock is read once. -/
def releaseInterruptedOwner (s : TaskStore D) (taskId : TaskId) (workerId error : String)
    (beforeFail : Option (TaskHook D)) (now later : Time) :
    TaskTransaction D (Option TaskStatus) :=
  match s.tasks.get taskId with
  | none => .ok (none, s)
  | some row =>
    if !row.isLiveOwner workerId now then .ok (none, s)
    else
      let last := if beforeFail.isSome then later else now
      match runHook beforeFail s.domain taskId row with
      | .error e => .error e
      | .ok domain =>
        if !row.isLiveOwner workerId last then .ok (none, s)
        else
          .ok (some .failed,
            { s with domain := domain }.put taskId (row.failInterrupted error last))

/-- A running task whose lease is missing or over. -/
def expired (row : TaskRow) (now : Time) : Bool :=
  row.status == .running && !leaseLive row.leaseExpiresAt now

def leaseExpiredError : String :=
  "worker_lease_expired: 执行 worker 的 lease 已过期，任务副作用结果未知"

/-- One expired task of `reconcile_expired_leases`, with the tasks reconciled so far. -/
def reconcileVisit (beforeFail : Option (String → TaskHook D)) (now : Time)
    (acc : List (TaskId × TaskStatus × Nat) × TaskStore D) (taskId : TaskId) :
    TaskTransaction D (List (TaskId × TaskStatus × Nat)) :=
  match acc.2.tasks.get taskId with
  | none => .ok acc
  | some row =>
    if !expired row now then .ok acc
    else
      match runHook (beforeFail.map (· leaseExpiredError)) acc.2.domain taskId row with
      | .error e => .error e
      | .ok domain =>
        .ok (acc.1 ++ [(taskId, .failed, row.attemptCount)],
          { acc.2 with domain := domain }.put taskId (row.failInterrupted leaseExpiredError now))

/-- The loop of `reconcile_expired_leases`: a hook that raises ends the transaction. -/
def reconcileRows (beforeFail : Option (String → TaskHook D)) (now : Time)
    (acc : List (TaskId × TaskStatus × Nat) × TaskStore D) :
    List TaskId → TaskTransaction D (List (TaskId × TaskStatus × Nat))
  | [] => .ok acc
  | taskId :: rest =>
    match reconcileVisit beforeFail now acc taskId with
    | .error e => .error e
    | .ok acc => reconcileRows beforeFail now acc rest

/-- `reconcile_expired_leases`; `scan` are the rows that the query found unlocked. -/
def reconcileExpiredLeases (s : TaskStore D) (scan : List TaskId)
    (beforeFail : Option (String → TaskHook D)) (now : Time) :
    TaskTransaction D (List (TaskId × TaskStatus × Nat)) :=
  reconcileRows beforeFail now ([], s) scan

/-! ## Steps -/

/-- The calls of `finish_owned` that `process_task` makes: only a success has a result. -/
inductive FinishCall (D : Type) where
  | success (result : Option String) (successHandler failureHandler : Option (TaskHook D))
  | failure (cancelled : Bool) (message error : String) (failureHandler : Option (TaskHook D))

def FinishCall.args : FinishCall D → FinishArgs D
  | success result successHandler failureHandler =>
    { status := .success
      message := "任务已完成"
      result := some result
      error := none
      beforeFinish := successHandler
      beforeCancel := failureHandler }
  | failure cancelled message error failureHandler =>
    { status := if cancelled then .cancelled else .failed
      message := message
      result := none
      error := some error
      beforeFinish := failureHandler
      beforeCancel := none }

/-- The transactions of the repository. -/
inductive TaskOp (D : Type) where
  | create (taskId : TaskId) (data : TaskData)
  | claim (taskId : TaskId) (workerId : String) (leaseSeconds : Int) (maxRunning : Option Int)
  | renewLease (taskId : TaskId) (workerId : String) (leaseSeconds : Int)
  | updateOwned (taskId : TaskId) (workerId : String) (data : TaskUpdate)
  | runOwnedTransaction (taskId : TaskId) (workerId : String) (operation : TaskHook D)
  | finishOwned (taskId : TaskId) (workerId : String) (call : FinishCall D)
  | releaseInterruptedOwner (taskId : TaskId) (workerId error : String)
      (beforeFail : Option (TaskHook D))
  | requestCancel (taskId : TaskId) (beforeCancel : Option (TaskHook D))
  | failPending (taskId : TaskId) (error : String) (beforeFail : Option (TaskHook D))
  | reconcileExpiredLeases (scan : List TaskId) (beforeFail : Option (String → TaskHook D))

/-- A transaction with its readings of the clock: when the row is locked, and after a hook. -/
structure TaskEvent (D : Type) where
  now : Time
  later : Time
  op : TaskOp D

/-- One transaction. -/
def taskStep (s : TaskStore D) (e : TaskEvent D) : TaskStore D :=
  match e.op with
  | .create taskId data => s.after (create s taskId (data.row e.now))
  | .claim taskId workerId leaseSeconds maxRunning =>
    s.after (claim s taskId workerId leaseSeconds maxRunning e.now)
  | .renewLease taskId workerId leaseSeconds =>
    s.after (renewLease s taskId workerId leaseSeconds e.now)
  | .updateOwned taskId workerId data => s.after (updateOwned s taskId workerId data e.now)
  | .runOwnedTransaction taskId workerId operation =>
    s.after (runOwnedTransaction s taskId workerId operation e.now e.later)
  | .finishOwned taskId workerId call =>
    s.after (finishOwned s taskId workerId call.args e.now e.later)
  | .releaseInterruptedOwner taskId workerId error beforeFail =>
    s.after (releaseInterruptedOwner s taskId workerId error beforeFail e.now e.later)
  | .requestCancel taskId beforeCancel => s.after (requestCancel s taskId beforeCancel e.now)
  | .failPending taskId error beforeFail => s.after (failPending s taskId error beforeFail e.now)
  | .reconcileExpiredLeases scan beforeFail =>
    s.after (reconcileExpiredLeases s scan beforeFail e.now)

end TaskRepository

end Yuanlei
