import Yuanlei.Task.Lifecycle

/-!
# Processing durable tasks

`process_task`, `Tasker.cancel_task`, `publish_pending_tasks` and the reconciliation of lost
workers, over the transactions of `TaskRepository`.  A delivery of `process_task` is a sequence
of transactions with other work in between, and it can stop at any point.  Cancelling a
task and publishing the pending ones first read the task and then act on what they have
read.

The domain hooks of a task are those of its definition.  Next to the data of the domain the
state records which hooks were committed for which task.

Main results:

- `transaction`: the transaction that a step makes, with its hooks.
- `taskServiceStep`: one step of a delivery, of a caller or of the maintenance.
-/

namespace Yuanlei

/-! ## Definitions of tasks -/

/-- `TaskDefinition` of `task_registry.py`. -/
structure TaskDefinition where
  taskType : String
  moduleName : String
  function : String
  successFunction : Option String := none
  failureFunction : Option String := none
  version : Int := 1
deriving DecidableEq

def taskDefinitions : List TaskDefinition :=
  [ { taskType := "knowledge_ingest"
      moduleName := "yuxi.services.knowledge_task_service"
      function := "run_knowledge_ingest"
      failureFunction := some "fail_knowledge_file_task" },
    { taskType := "knowledge_parse"
      moduleName := "yuxi.services.knowledge_task_service"
      function := "run_knowledge_parse"
      failureFunction := some "fail_knowledge_file_task" },
    { taskType := "knowledge_index"
      moduleName := "yuxi.services.knowledge_task_service"
      function := "run_knowledge_index"
      failureFunction := some "fail_knowledge_file_task" },
    { taskType := "knowledge_graph_index"
      moduleName := "yuxi.services.knowledge_task_service"
      function := "run_knowledge_graph" },
    { taskType := "knowledge_virtual_folder_migration"
      moduleName := "yuxi.services.knowledge_task_service"
      function := "run_virtual_folder_migration" },
    { taskType := "dataset_generation"
      moduleName := "yuxi.knowledge.eval.service"
      function := "run_dataset_generation_task"
      successFunction := some "finish_dataset_generation_task"
      failureFunction := some "fail_dataset_generation_task" },
    { taskType := "rag_evaluation"
      moduleName := "yuxi.knowledge.eval.service"
      function := "run_rag_evaluation_task"
      successFunction := some "finish_rag_evaluation_task"
      failureFunction := some "fail_rag_evaluation_task" } ]

def getTaskDefinition (taskType : String) (handlerVersion : Int) : Except String TaskDefinition :=
  match taskDefinitions.find? (·.taskType == taskType) with
  | none => .error ("Unknown task type: " ++ taskType)
  | some definition =>
    if definition.version ≠ handlerVersion then
      .error ("Unsupported handler version for " ++ taskType ++ ": " ++ toString handlerVersion ++
        "; expected " ++ toString definition.version)
    else .ok definition

/-- `get_failure_task_definition`: tasks of the legacy version 0 use the current hook. -/
def getFailureTaskDefinition (taskType : String) (handlerVersion : Int) :
    Except String TaskDefinition :=
  if handlerVersion = 0 then getTaskDefinition taskType 1
  else getTaskDefinition taskType handlerVersion

/-! ## Hooks -/

inductive HookKind where
  | success
  | failure
deriving DecidableEq

/-- A call of a domain hook on a task. -/
structure HookRun where
  kind : HookKind
  taskId : TaskId
deriving DecidableEq

/-- The data of the domain, with the calls of hooks that were committed. -/
structure TaskDomain (X : Type) where
  data : X
  hooks : List HookRun

/-- What the domain functions do, by module and name; they may raise. -/
structure TaskHandlers (X : Type) where
  success : String → String → X → TaskId → TaskRow → Option String → Except String X
  failure : String → String → X → TaskId → TaskRow → String → Except String X

variable {X : Type}

/-- `partial(success_handler, result=result)`, if there is a success handler. -/
def TaskDefinition.successHook (definition : TaskDefinition) (handlers : TaskHandlers X)
    (result : Option String) : Option (TaskHook (TaskDomain X)) :=
  definition.successFunction.map fun function => fun domain taskId row =>
    match handlers.success definition.moduleName function domain.data taskId row result with
    | .error message => .error message
    | .ok data => .ok ⟨data, domain.hooks ++ [⟨.success, taskId⟩]⟩

/-- `partial(failure_handler, error=error)`, if there is a failure handler. -/
def TaskDefinition.failureHook (definition : TaskDefinition) (handlers : TaskHandlers X)
    (error : String) : Option (TaskHook (TaskDomain X)) :=
  definition.failureFunction.map fun function => fun domain taskId row =>
    match handlers.failure definition.moduleName function domain.data taskId row error with
    | .error message => .error message
    | .ok data => .ok ⟨data, domain.hooks ++ [⟨.failure, taskId⟩]⟩

/-- `finalize_task_failure`, the hook of the reconciliation. -/
def finalizeTaskFailure (handlers : TaskHandlers X) (error : String) : TaskHook (TaskDomain X) :=
  fun domain taskId row =>
    match getFailureTaskDefinition row.type row.handlerVersion with
    | .error _ => .ok domain
    | .ok definition =>
      match definition.failureHook handlers error with
      | none => .ok domain
      | some hook => hook domain taskId row

namespace TaskService

open TaskRepository

/-! ## Calls in progress -/

/-- Where a delivery of `process_task` stands. -/
inductive DeliveryPhase where
  | loaded (cancelRequested : Bool)
  | running (owner : String) (timeoutSeconds : ℚ)
deriving DecidableEq

/-- A delivery of `process_task`, with the definition it has found for its task. -/
structure Delivery where
  taskId : TaskId
  definition : TaskDefinition
  phase : DeliveryPhase

/-- A call of `cancel_task` that has read its task; without a task there is no definition. -/
structure CancelCall where
  taskId : TaskId
  definition : Option TaskDefinition

/-- A pending task that `publish_pending_tasks` has read. -/
structure PublishCall where
  taskId : TaskId
  record : TaskRow

structure TaskSystem (X : Type) where
  store : TaskStore (TaskDomain X)
  deliveries : List Delivery
  cancels : List CancelCall
  publishes : List PublishCall

def TaskSystem.initial (data : X) : TaskSystem X where
  store := emptyStore ⟨data, []⟩
  deliveries := []
  cancels := []
  publishes := []

/-- The constants of `task_service.py`; `formatG` writes a number as `:g` does. -/
structure TaskSettings where
  taskLeaseSeconds : Int := 30
  durableTaskMaxRunning : Int
  taskerDefaultTimeoutSeconds : ℚ := 21600
  formatG : ℚ → String

/-- How the execution of a claimed task ends. -/
inductive Ending where
  | handlerUnavailable (error : String)
  | timeout
  | success (result : Option String)
  | cancelled
  | leaseLost
  | shutdown
  | failed (error : String)

inductive ServiceOp (X : Type) where
  | enqueue (taskId : TaskId) (name taskType payload : String) (dedupeKey : Option String)
      (timeoutSeconds : ℚ)
  | domainWrite (f : X → X)
  | cancelTask (taskId : TaskId)
  | requestCancel (call : Nat)
  | deliver (taskId : TaskId)
  | start (delivery : Nat) (owner : String)
  | heartbeat (delivery : Nat)
  | update (delivery : Nat) (data : TaskUpdate)
  | checkpoint (delivery : Nat) (operation : X → TaskId → TaskRow → Except String X)
  | finish (delivery : Nat) (ending : Ending)
  | crash (delivery : Nat)
  | reconcile (scan : List TaskId)
  | listPending (taskId : TaskId)
  | publish (call : Nat)

/-- A step with its readings of the clock. -/
structure ServiceEvent (X : Type) where
  now : Time
  later : Time
  op : ServiceOp X

/-! ## Steps -/

/-- A domain checkpoint runs no hook. -/
def checkpointHook (operation : X → TaskId → TaskRow → Except String X) :
    TaskHook (TaskDomain X) :=
  fun domain taskId row =>
    match operation domain.data taskId row with
    | .error message => .error message
    | .ok data => .ok { domain with data := data }

/-- The text of `error` with which cancelling runs the failure handler. -/
def cancelledError : String :=
  "任务已取消"

/-- The transaction in which `process_task` ends a claimed task; a lost lease ends it without
one. -/
def endingOp (settings : TaskSettings) (handlers : TaskHandlers X) (taskId : TaskId)
    (definition : TaskDefinition) (owner : String) (timeoutSeconds : ℚ) :
    Ending → Option (TaskOp (TaskDomain X))
  | .handlerUnavailable error =>
    some (.finishOwned taskId owner
      (.failure false "任务 Handler 无法加载" error (definition.failureHook handlers error)))
  | .timeout =>
    let error :=
      "Task exceeded the " ++ settings.formatG timeoutSeconds ++ "-second execution timeout"
    some (.finishOwned taskId owner
      (.failure false "任务执行超时" error (definition.failureHook handlers error)))
  | .success result =>
    some (.finishOwned taskId owner
      (.success result (definition.successHook handlers result)
        (definition.failureHook handlers cancelledError)))
  | .cancelled =>
    some (.finishOwned taskId owner
      (.failure true "任务已取消" cancelledError (definition.failureHook handlers cancelledError)))
  | .leaseLost => none
  | .shutdown =>
    let error := "worker_shutdown: worker 停止时任务中断"
    some (.releaseInterruptedOwner taskId owner error (definition.failureHook handlers error))
  | .failed error =>
    some (.finishOwned taskId owner
      (.failure false "任务执行失败" error (definition.failureHook handlers error)))

/-- What `publish_pending_tasks` does with a task that it has read. -/
def publishOp (handlers : TaskHandlers X) (call : PublishCall) :
    Option (TaskOp (TaskDomain X)) :=
  let failureDefinition :=
    (getFailureTaskDefinition call.record.type call.record.handlerVersion).toOption
  match getTaskDefinition call.record.type 1 with
  | .error error => some (.failPending call.taskId error none)
  | .ok _ =>
    if call.record.cancelRequested then
      some (.requestCancel call.taskId
        (failureDefinition.bind (·.failureHook handlers cancelledError)))
    else
      match getTaskDefinition call.record.type call.record.handlerVersion with
      | .error error =>
        some (.failPending call.taskId error
          (failureDefinition.bind (·.failureHook handlers error)))
      | .ok _ => none

/-- The transaction of a step on the task of a delivery that runs. -/
def deliveryOp (s : TaskSystem X) (k : Nat)
    (f : TaskId → TaskDefinition → String → ℚ → Option (TaskOp (TaskDomain X))) :
    Option (TaskOp (TaskDomain X)) :=
  match s.deliveries[k]? with
  | some ⟨taskId, definition, .running owner timeoutSeconds⟩ =>
    f taskId definition owner timeoutSeconds
  | _ => none

/-- The transaction of a step, if it has one. -/
def transaction (settings : TaskSettings) (handlers : TaskHandlers X) (s : TaskSystem X) :
    ServiceOp X → Option (TaskOp (TaskDomain X))
  | .enqueue taskId name taskType payload dedupeKey timeoutSeconds =>
    match getTaskDefinition taskType 1 with
    | .error _ => none
    | .ok definition =>
      -- A drawn id is new: nobody has asked for a task of this id before.
      if s.cancels.any (·.taskId == taskId) then none
      else
        some (.create taskId
          { name := name
            type := taskType
            payload := payload
            handlerVersion := definition.version
            dedupeKey := dedupeKey
            timeoutSeconds := timeoutSeconds })
  | .requestCancel k =>
    s.cancels[k]?.map fun call =>
      .requestCancel call.taskId (call.definition.bind (·.failureHook handlers cancelledError))
  | .start k owner =>
    match s.deliveries[k]? with
    | some ⟨taskId, definition, .loaded cancelRequested⟩ =>
      if cancelRequested then
        some (.requestCancel taskId (definition.failureHook handlers cancelledError))
      else
        some (.claim taskId owner settings.taskLeaseSeconds
          (some settings.durableTaskMaxRunning))
    | _ => none
  | .heartbeat k =>
    deliveryOp s k fun taskId _ owner _ =>
      some (.renewLease taskId owner settings.taskLeaseSeconds)
  | .update k data => deliveryOp s k fun taskId _ owner _ => some (.updateOwned taskId owner data)
  | .checkpoint k operation =>
    deliveryOp s k fun taskId _ owner _ =>
      some (.runOwnedTransaction taskId owner (checkpointHook operation))
  | .finish k ending =>
    deliveryOp s k fun taskId definition owner timeoutSeconds =>
      endingOp settings handlers taskId definition owner timeoutSeconds ending
  | .reconcile scan => some (.reconcileExpiredLeases scan (some (finalizeTaskFailure handlers)))
  | .publish k => s.publishes[k]?.bind (publishOp handlers)
  | .domainWrite _ | .cancelTask _ | .deliver _ | .crash _ | .listPending _ => none

/-- The store after the transaction of a step. -/
def commit (settings : TaskSettings) (handlers : TaskHandlers X) (s : TaskSystem X)
    (e : ServiceEvent X) : TaskStore (TaskDomain X) :=
  match transaction settings handlers s e.op with
  | none => s.store
  | some op => taskStep s.store ⟨e.now, e.later, op⟩

/-- `float(record.timeout_seconds or TASKER_DEFAULT_TIMEOUT_SECONDS)`. -/
def TaskSettings.timeout (settings : TaskSettings) (row : TaskRow) : ℚ :=
  if row.timeoutSeconds = 0 then settings.taskerDefaultTimeoutSeconds else row.timeoutSeconds

/-- The delivery after `start`: it runs if its claim was won. -/
def startDelivery (settings : TaskSettings) (s : TaskSystem X) (k : Nat) (owner : String)
    (now : Time) : List Delivery :=
  match s.deliveries[k]? with
  | some ⟨taskId, definition, .loaded false⟩ =>
    match claim s.store taskId owner settings.taskLeaseSeconds
        (some settings.durableTaskMaxRunning) now with
    | .ok ((some row, true), _) =>
      s.deliveries.set k ⟨taskId, definition, .running owner (settings.timeout row)⟩
    | _ => s.deliveries.eraseIdx k
  | some ⟨_, _, .loaded true⟩ => s.deliveries.eraseIdx k
  | _ => s.deliveries

/-- Whether the delivery goes on after an ending: when `finish_owned` raises inside the
`try`, the failure is recorded by another call. -/
def goesOn (settings : TaskSettings) (handlers : TaskHandlers X) (s : TaskSystem X)
    (e : ServiceEvent X) (k : Nat) (ending : Ending) : Bool :=
  match ending, transaction settings handlers s (.finish k ending) with
  | .success _, some (.finishOwned taskId owner call) =>
    !(finishOwned s.store taskId owner call.args e.now e.later).isOk
  | .timeout, some (.finishOwned taskId owner call) =>
    !(finishOwned s.store taskId owner call.args e.now e.later).isOk
  | _, _ => false

/-- One step of a delivery, of a caller or of the maintenance. -/
def taskServiceStep (settings : TaskSettings) (handlers : TaskHandlers X) (s : TaskSystem X)
    (e : ServiceEvent X) : TaskSystem X :=
  let store := commit settings handlers s e
  match e.op with
  | .enqueue .. | .heartbeat _ | .update .. | .checkpoint .. | .reconcile _ =>
    { s with store := store }
  | .domainWrite f =>
    { s with store.domain.data := f s.store.domain.data }
  | .cancelTask taskId =>
    match s.store.tasks.get taskId with
    | none => { s with cancels := s.cancels ++ [⟨taskId, none⟩] }
    | some row =>
      match getFailureTaskDefinition row.type row.handlerVersion with
      | .error _ => s
      | .ok definition => { s with cancels := s.cancels ++ [⟨taskId, some definition⟩] }
  | .requestCancel k => { s with store := store, cancels := s.cancels.eraseIdx k }
  | .deliver taskId =>
    match s.store.tasks.get taskId with
    | none => s
    | some row =>
      if row.status.isTerminal then s
      else
        match getTaskDefinition row.type row.handlerVersion with
        | .error _ => s
        | .ok definition =>
          { s with
            deliveries := s.deliveries ++ [⟨taskId, definition, .loaded row.cancelRequested⟩] }
  | .start k owner =>
    { s with store := store, deliveries := startDelivery settings s k owner e.now }
  | .finish k ending =>
    { s with
      store := store
      deliveries :=
        if goesOn settings handlers s e k ending then s.deliveries
        else s.deliveries.eraseIdx k }
  | .crash k => { s with deliveries := s.deliveries.eraseIdx k }
  | .listPending taskId =>
    match s.store.tasks.get taskId with
    | none => s
    | some row =>
      if row.status = .pending then { s with publishes := s.publishes ++ [⟨taskId, row⟩] }
      else s
  | .publish k => { s with store := store, publishes := s.publishes.eraseIdx k }

end TaskService

end Yuanlei
