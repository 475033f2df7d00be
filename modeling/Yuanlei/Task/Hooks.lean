import Yuanlei.Task.Processing

/-!
# Domain hooks of durable tasks

Six transactions end a task, and every one of them gets its hooks under another name.  The
hooks that were committed for a task are a function of its status: none before it has
ended, the success hook of its definition when it has succeeded, and the failure hook when
it has failed or was cancelled.  Since a task ends once, its hook runs once.

Main results:

- `taskStep_hooks`: a transaction with the hooks of the definition keeps this.
- `hooks_run_once`: the hooks of a task with both handlers, along every run.
-/

namespace Yuanlei

variable {X : Type}

/-! ## What a hook records -/

/-- The hooks that succeeding runs. -/
def TaskDefinition.successHooks (definition : TaskDefinition) : List HookKind :=
  if definition.successFunction.isSome then [.success] else []

/-- The hooks that failing and cancelling run. -/
def TaskDefinition.failureHooks (definition : TaskDefinition) : List HookKind :=
  if definition.failureFunction.isSome then [.failure] else []

/-- The hooks that have run for a task in a status. -/
def TaskDefinition.expectedHooks (definition : TaskDefinition) : TaskStatus → List HookKind
  | .pending | .running => []
  | .success => definition.successHooks
  | .failed | .cancelled => definition.failureHooks

/-- The hooks committed for a task. -/
def TaskDomain.hookRuns (domain : TaskDomain X) (taskId : TaskId) : List HookKind :=
  (domain.hooks.filter (·.taskId == taskId)).map (·.kind)

/-- On a row the hook records the given calls, unless it raises. -/
def RunsOn (hook : Option (TaskHook (TaskDomain X))) (row : TaskRow) (kinds : List HookKind) :
    Prop :=
  ∀ domain taskId domain', runHook hook domain taskId row = .ok domain' →
    domain'.hooks = domain.hooks ++ kinds.map fun kind => ⟨kind, taskId⟩

theorem runsOn_none (row : TaskRow) : RunsOn (none : Option (TaskHook (TaskDomain X))) row [] := by
  intro domain taskId domain' h
  cases h
  simp

theorem runsOn_successHook (definition : TaskDefinition) (handlers : TaskHandlers X)
    (result : Option String) (row : TaskRow) :
    RunsOn (definition.successHook handlers result) row definition.successHooks := by
  unfold TaskDefinition.successHook TaskDefinition.successHooks
  cases hfunction : definition.successFunction with
  | none => exact runsOn_none row
  | some function =>
    intro domain taskId domain' h
    simp only [Option.map_some, runHook] at h
    cases hrun : handlers.success definition.moduleName function domain.data taskId row result with
    | error message => simp [hrun] at h
    | ok data =>
      simp only [hrun, Except.ok.injEq] at h
      subst h
      simp

theorem runsOn_failureHook (definition : TaskDefinition) (handlers : TaskHandlers X)
    (error : String) (row : TaskRow) :
    RunsOn (definition.failureHook handlers error) row definition.failureHooks := by
  unfold TaskDefinition.failureHook TaskDefinition.failureHooks
  cases hfunction : definition.failureFunction with
  | none => exact runsOn_none row
  | some function =>
    intro domain taskId domain' h
    simp only [Option.map_some, runHook] at h
    cases hrun : handlers.failure definition.moduleName function domain.data taskId row error with
    | error message => simp [hrun] at h
    | ok data =>
      simp only [hrun, Except.ok.injEq] at h
      subst h
      simp

variable {definition : TaskDefinition} {taskType : String} {handlerVersion : Int}

section

variable (h : getTaskDefinition taskType handlerVersion = .ok definition)
include h

theorem failureFunction_isSome
    (hsuccess : definition.successFunction.isSome) : definition.failureFunction.isSome := by
  have hall : ∀ d ∈ taskDefinitions, d.successFunction.isSome → d.failureFunction.isSome := by
    decide
  unfold getTaskDefinition at h
  split at h
  · cases h
  · rename_i found hfind
    split_ifs at h
    cases h
    exact hall _ (List.mem_of_find?_eq_some hfind) hsuccess

theorem handlerVersion_eq_one :
    handlerVersion = 1 ∧ definition.version = 1 := by
  have hall : ∀ d ∈ taskDefinitions, d.version = 1 := by
    decide
  unfold getTaskDefinition at h
  split at h
  · cases h
  · rename_i found hfind
    split_ifs at h with hversion
    cases h
    have hone := hall _ (List.mem_of_find?_eq_some hfind)
    exact ⟨(not_not.mp hversion).symm.trans hone, hone⟩

theorem runsOn_cancelHook (handlers : TaskHandlers X)
    (error : String) (result : Option String) (row : TaskRow) :
    RunsOn ((definition.failureHook handlers error).orElse
      fun _ => definition.successHook handlers result) row definition.failureHooks := by
  cases hfunction : definition.failureFunction with
  | none =>
    have hsuccess : definition.successFunction = none := by
      by_contra hne
      have hsome := failureFunction_isSome h (Option.isSome_iff_ne_none.mpr hne)
      simp [hfunction] at hsome
    simp only [TaskDefinition.failureHook, TaskDefinition.failureHooks, hfunction,
      TaskDefinition.successHook, hsuccess, Option.map_none]
    exact runsOn_none row
  | some function =>
    have hhook := runsOn_failureHook definition handlers error row
    simpa [TaskDefinition.failureHook, hfunction, Option.orElse] using hhook

end

variable {row : TaskRow}

theorem runsOn_finalizeTaskFailure (handlers : TaskHandlers X) (error : String)
    (h : getTaskDefinition row.type row.handlerVersion = .ok definition) :
    RunsOn (some (finalizeTaskFailure handlers error)) row definition.failureHooks := by
  intro domain taskId domain' hrun
  have hone := (handlerVersion_eq_one h).1
  have hfailure : getFailureTaskDefinition row.type row.handlerVersion = .ok definition := by
    simp only [getFailureTaskDefinition, hone, one_ne_zero, if_false]
    rw [← hone]
    exact h
  have hhook := runsOn_failureHook definition handlers error row domain taskId domain'
  simp only [runHook, finalizeTaskFailure, hfailure] at hrun
  cases hcase : definition.failureHook handlers error with
  | none =>
    simp only [hcase, Except.ok.injEq] at hrun
    exact hhook (by simp [hcase, runHook, hrun])
  | some hook =>
    simp only [hcase] at hrun
    exact hhook (by simp only [hcase, runHook]; exact hrun)

/-! ## Hooks and statuses agree -/

/-- Every task has a registered definition, and its committed hooks are those that its status
calls for. -/
structure HookInv (s : TaskStore (TaskDomain X)) : Prop where
  known : ∀ {taskId row}, s.tasks.get taskId = some row → ∃ definition,
    getTaskDefinition row.type row.handlerVersion = .ok definition ∧
      s.domain.hookRuns taskId = definition.expectedHooks row.status
  absent : ∀ {taskId}, s.tasks.get taskId = none → s.domain.hookRuns taskId = []

variable {domain' : TaskDomain X} {taskId : TaskId} {kinds : List HookKind}

theorem hookRuns_append {domain : TaskDomain X}
    (h : domain'.hooks = domain.hooks ++ kinds.map fun kind => ⟨kind, taskId⟩) (j : TaskId) :
    domain'.hookRuns j = domain.hookRuns j ++ if j = taskId then kinds else [] := by
  unfold TaskDomain.hookRuns
  rw [h, List.filter_append, List.map_append]
  by_cases hj : j = taskId
  · subst hj
    simp [List.filter_map, Function.comp_def]
  · have hne : taskId ≠ j := fun heq => hj heq.symm
    simp [hj, hne, List.filter_map, Function.comp_def]

variable {s : TaskStore (TaskDomain X)}

/-- A change of the domain without hooks keeps the invariant. -/
theorem HookInv.of_hooks_eq {s' : TaskStore (TaskDomain X)} (h : HookInv s)
    (htasks : s'.tasks = s.tasks) (hhooks : s'.domain.hooks = s.domain.hooks) : HookInv s' := by
  have hruns : ∀ taskId, s'.domain.hookRuns taskId = s.domain.hookRuns taskId := by
    intro taskId
    simp [TaskDomain.hookRuns, hhooks]
  constructor
  · intro taskId row hrow
    rw [htasks] at hrow
    rw [hruns]
    exact h.known hrow
  · intro taskId hnone
    rw [htasks] at hnone
    rw [hruns]
    exact h.absent hnone

theorem HookInv.put {row' : TaskRow} (h : HookInv s) (hrow : s.tasks.get taskId = some row)
    (hdomain : domain'.hooks = s.domain.hooks ++ kinds.map fun kind => ⟨kind, taskId⟩)
    (htype : row'.type = row.type) (hversion : row'.handlerVersion = row.handlerVersion)
    (hkinds : ∀ definition, getTaskDefinition row.type row.handlerVersion = .ok definition →
      definition.expectedHooks row.status ++ kinds = definition.expectedHooks row'.status) :
    HookInv ({ s with domain := domain' }.put taskId row') := by
  constructor
  · intro j r hr
    rw [TaskRepository.get_put] at hr
    have hruns := hookRuns_append hdomain j
    by_cases hj : j = taskId
    · subst hj
      simp only [if_true, hrow, Option.map_some, Option.some.injEq] at hr
      subst hr
      obtain ⟨definition, hdefinition, hold⟩ := h.known hrow
      refine ⟨definition, by rw [htype, hversion]; exact hdefinition, ?_⟩
      calc domain'.hookRuns j = s.domain.hookRuns j ++ kinds := by simpa using hruns
        _ = definition.expectedHooks row.status ++ kinds := by rw [hold]
        _ = definition.expectedHooks row'.status := hkinds definition hdefinition
    · simp only [hj, if_false] at hr
      obtain ⟨definition, hdefinition, hold⟩ := h.known hr
      refine ⟨definition, hdefinition, ?_⟩
      show domain'.hookRuns j = _
      simpa [hj, hold] using hruns
  · intro j hnone
    rw [TaskRepository.get_put] at hnone
    have hruns := hookRuns_append hdomain j
    by_cases hj : j = taskId
    · simp [hj, hrow] at hnone
    · simp only [hj, if_false] at hnone
      have hold := h.absent hnone
      show domain'.hookRuns j = []
      simpa [hj, hold] using hruns

/-! ## Transactions with the hooks of the definition -/

namespace TaskRepository

/-- The hooks of a call of `finish_owned` are those of the definition. -/
def ProperCall (definition : TaskDefinition) : FinishCall (TaskDomain X) → Prop
  | .success _ successHandler failureHandler =>
    ∀ row, RunsOn successHandler row definition.successHooks ∧
      RunsOn (failureHandler.orElse fun _ => successHandler) row definition.failureHooks
  | .failure _ _ _ failureHandler => ∀ row, RunsOn failureHandler row definition.failureHooks

/-- The failure hook of a transaction on a task is that of the definition of the task. -/
def ProperHook (s : TaskStore (TaskDomain X)) (taskId : TaskId)
    (hook : Option (TaskHook (TaskDomain X))) : Prop :=
  ∀ row definition, s.tasks.get taskId = some row →
    getTaskDefinition row.type row.handlerVersion = .ok definition →
      ∀ row', RunsOn hook row' definition.failureHooks

/-- The hooks of a transaction are those of the definitions of the tasks that it acts on. -/
def ProperOp (s : TaskStore (TaskDomain X)) : TaskOp (TaskDomain X) → Prop
  | .create _ data => ∃ definition, getTaskDefinition data.type data.handlerVersion = .ok definition
  | .claim .. | .renewLease .. | .updateOwned .. => True
  | .runOwnedTransaction _ _ operation => ∀ row, RunsOn (some operation) row []
  | .finishOwned taskId _ call => ∀ row definition, s.tasks.get taskId = some row →
      getTaskDefinition row.type row.handlerVersion = .ok definition → ProperCall definition call
  | .releaseInterruptedOwner taskId _ _ beforeFail => ProperHook s taskId beforeFail
  | .requestCancel taskId beforeCancel => ProperHook s taskId beforeCancel
  | .failPending taskId _ beforeFail => ProperHook s taskId beforeFail
  | .reconcileExpiredLeases _ beforeFail => ∀ row definition,
      getTaskDefinition row.type row.handlerVersion = .ok definition →
        RunsOn (beforeFail.map (· leaseExpiredError)) row definition.failureHooks

theorem ProperCall.effective {definition : TaskDefinition} {call : FinishCall (TaskDomain X)}
    (h : ProperCall definition call) (row row' : TaskRow) :
    RunsOn (call.args.effective row).beforeFinish row'
      (definition.expectedHooks (call.args.effective row).status) := by
  unfold FinishArgs.effective
  cases call with
  | success result successHandler failureHandler =>
    obtain ⟨hsuccess, hcancel⟩ := h row'
    split_ifs
    · exact hcancel
    · exact hsuccess
  | failure cancelled message error failureHandler =>
    have hfailure := h row'
    split_ifs
    · simpa [FinishCall.args, FinishArgs.cancelled, Option.orElse,
        TaskDefinition.expectedHooks] using hfailure
    · cases cancelled <;> exact hfailure

variable {s : TaskStore (TaskDomain X)} {taskId : TaskId} {now : Time}

theorem created_hooks (h : HookInv s) {data : TaskData} {tasks : Table TaskId TaskRow}
    (hproper : ∃ definition, getTaskDefinition data.type data.handlerVersion = .ok definition)
    (hinsert : s.tasks.insert taskId (data.row now) = some tasks) :
    HookInv { s with tasks := tasks } := by
  obtain ⟨hfresh, hget⟩ := Table.get_of_insert hinsert
  constructor
  · intro j row hrow
    simp only [hget] at hrow
    by_cases hj : j = taskId
    · subst hj
      simp only [if_true, Option.some.injEq] at hrow
      subst hrow
      obtain ⟨definition, hdefinition⟩ := hproper
      exact ⟨definition, hdefinition, h.absent hfresh⟩
    · simp only [hj, if_false] at hrow
      exact h.known hrow
  · intro j hnone
    simp only [hget] at hnone
    by_cases hj : j = taskId
    · simp [hj] at hnone
    · simp only [hj, if_false] at hnone
      exact h.absent hnone

theorem expectedHooks_of_live {status : TaskStatus} (h : status.isTerminal = false)
    (definition : TaskDefinition) : definition.expectedHooks status = [] := by
  cases status with
  | pending | running => rfl
  | success | failed | cancelled => cases h

/-- No claim of a task that was asked to be cancelled. -/
def ClaimsUncancelled (s : TaskStore (TaskDomain X)) (e : TaskEvent (TaskDomain X)) : Prop :=
  ∀ {taskId row workerId leaseSeconds maxRunning}, s.tasks.get taskId = some row →
    e.op = .claim taskId workerId leaseSeconds maxRunning → row.status = .pending →
      row.cancelRequested = false

variable {e : TaskEvent (TaskDomain X)} {row row' : TaskRow}
  {hook : Option (TaskHook (TaskDomain X))}

theorem taskWrite_identity (h : TaskWrite e taskId row row' hook) :
    row'.type = row.type ∧ row'.handlerVersion = row.handlerVersion := by
  cases h <;> exact ⟨rfl, rfl⟩

theorem TaskWrite.hooks (hwrite : TaskWrite e taskId row row' hook)
    (hrow : s.tasks.get taskId = some row)
    (hproper : ProperOp s e.op) (hclaim : ClaimsUncancelled s e)
    (hdefinition : getTaskDefinition row.type row.handlerVersion = .ok definition)
    {run : TaskRow} (hrun : run.type = row.type ∧ run.handlerVersion = row.handlerVersion) :
    RunsOn hook run (definition.expectedHooks row'.status) := by
  cases hwrite with
  | claimed => exact runsOn_none run
  | cancelledAtClaim hop hpending hintent =>
    rw [hclaim hrow hop hpending] at hintent
    cases hintent
  | cancelIntent hrunning =>
    rw [expectedHooks_of_live (by simp [TaskRow.cancelIntent, hrunning, TaskStatus.isTerminal])]
    exact runsOn_none run
  | renewed hlive | updated _ hlive =>
    have hrunning := isLiveOwner_running hlive
    rw [expectedHooks_of_live
      (by simp [TaskRow.renewed, TaskRow.updated, hrunning, TaskStatus.isTerminal])]
    exact runsOn_none run
  | finished hop =>
    rw [hop] at hproper
    exact (hproper row definition hrow hdefinition).effective row run
  | cancelled _ hop | released hop | failedPending hop =>
    rw [hop] at hproper
    exact hproper row definition hrow hdefinition run
  | reconciled hop =>
    rw [hop] at hproper
    exact hproper run definition (by rw [hrun.1, hrun.2, hdefinition])

theorem effect_hooks {s' : TaskStore (TaskDomain X)} (h : HookInv s) (heffect : TaskEffect e s s')
    (hproper : ProperOp s e.op) (hclaim : ClaimsUncancelled s e) : HookInv s' := by
  cases heffect with
  | kept => exact h
  | created hop hinsert =>
    rw [hop] at hproper
    exact created_hooks h hproper hinsert
  | ran hop hran =>
    rw [hop] at hproper
    have hhooks := hproper _ _ _ _ hran
    rw [List.map_nil, List.append_nil] at hhooks
    exact h.of_hooks_eq rfl hhooks
  | written hrow hwrite hrun hran =>
    obtain ⟨definition, hdefinition, -⟩ := h.known hrow
    have hhooks := hwrite.hooks hrow hproper hclaim hdefinition hrun _ _ _ hran
    obtain ⟨htype, hversion⟩ := taskWrite_identity hwrite
    refine h.put hrow hhooks htype hversion ?_
    intro definition' hdefinition'
    rw [hdefinition] at hdefinition'
    cases hdefinition'
    rw [expectedHooks_of_live hwrite.not_terminal]
    rfl

theorem reconcileRows_hooks {scan visits : List TaskId}
    {beforeFail : Option (String → TaskHook (TaskDomain X))}
    {acc acc' : List (TaskId × TaskStatus × Nat) × TaskStore (TaskDomain X)}
    (hop : e.op = .reconcileExpiredLeases scan beforeFail) (hproper : ProperOp s e.op)
    (h : HookInv acc.2) (hrows : reconcileRows beforeFail e.now acc visits = .ok acc') :
    HookInv acc'.2 := by
  induction visits generalizing acc with
  | nil =>
    simp only [reconcileRows, Except.ok.injEq] at hrows
    subst hrows
    exact h
  | cons taskId rest ih =>
    rw [reconcileRows] at hrows
    split at hrows
    · cases hrows
    · rename_i acc₁ hvisit
      refine ih (effect_hooks h (reconcileVisit_effect hop hvisit) ?_ ?_) hrows
      · rw [hop] at hproper ⊢
        exact hproper
      · intro taskId row workerId leaseSeconds maxRunning _ hother
        rw [hop] at hother
        cases hother

theorem taskStep_hooks (h : HookInv s)
    (hpending : ∀ {taskId row}, s.tasks.get taskId = some row → row.status = .pending →
      row.cancelRequested = false)
    (hproper : ProperOp s e.op) : HookInv (taskStep s e) := by
  by_cases hop : ∃ scan beforeFail, e.op = .reconcileExpiredLeases scan beforeFail
  · obtain ⟨scan, beforeFail, hop⟩ := hop
    simp only [taskStep, hop, reconcileExpiredLeases]
    cases hrows : reconcileRows beforeFail e.now ([], s) scan with
    | error error => exact h
    | ok acc => exact reconcileRows_hooks hop hproper h hrows
  · push Not at hop
    exact effect_hooks h (taskStep_effect s e hop) hproper fun hrow _ => hpending hrow

end TaskRepository

/-! ## Calls in progress -/

namespace TaskService

open TaskRepository

/-- A task with the given definition. -/
def Defined (s : TaskStore (TaskDomain X)) (taskId : TaskId) (definition : TaskDefinition) :
    Prop :=
  ∃ row, s.tasks.get taskId = some row ∧
    getTaskDefinition row.type row.handlerVersion = .ok definition

/-- The invariant of the services: the hooks agree with the statuses, no pending task has a
request to cancel, and the calls in progress have the definitions of their tasks. -/
structure SystemInv (s : TaskSystem X) : Prop where
  hooks : HookInv s.store
  pending : ∀ {taskId row}, s.store.tasks.get taskId = some row → row.status = .pending →
    row.cancelRequested = false
  deliveries : ∀ {d}, d ∈ s.deliveries → Defined s.store d.taskId d.definition
  cancels : ∀ {c}, c ∈ s.cancels → (c.definition = none → s.store.tasks.get c.taskId = none) ∧
    ∀ definition, c.definition = some definition → Defined s.store c.taskId definition
  publishes : ∀ {c}, c ∈ s.publishes → ∃ row, s.store.tasks.get c.taskId = some row ∧
    row.type = c.record.type ∧ row.handlerVersion = c.record.handlerVersion

variable {taskId : TaskId} {row row' : TaskRow} {s : TaskStore (TaskDomain X)}

theorem taskStep_identity (e : TaskEvent (TaskDomain X)) (hrow : s.tasks.get taskId = some row) :
    ∃ row', (taskStep s e).tasks.get taskId = some row' ∧ row'.type = row.type ∧
      row'.handlerVersion = row.handlerVersion := by
  obtain ⟨row', hrow', rfl | ⟨_, hwrite⟩⟩ := (taskStep_write s e).row taskId row hrow
  · exact ⟨row', hrow', rfl, rfl⟩
  · exact ⟨row', hrow', taskWrite_identity hwrite⟩

variable {definition : TaskDefinition}

theorem Defined.taskStep (h : Defined s taskId definition)
    (e : TaskEvent (TaskDomain X)) : Defined (taskStep s e) taskId definition := by
  obtain ⟨row, hrow, hdefinition⟩ := h
  obtain ⟨row', hrow', htype, hversion⟩ := taskStep_identity e hrow
  exact ⟨row', hrow', by rw [htype, hversion]; exact hdefinition⟩

/-- A write leaves no task pending. -/
theorem taskWrite_not_pending {e : TaskEvent (TaskDomain X)}
    {hook : Option (TaskHook (TaskDomain X))} (h : TaskWrite e taskId row row' hook) :
    row'.status ≠ .pending := by
  intro hpending
  cases h with
  | claimed | cancelledAtClaim | cancelled | released | failedPending | reconciled =>
    cases hpending
  | cancelIntent hrunning =>
    simp only [TaskRow.cancelIntent] at hpending
    rw [hrunning] at hpending
    cases hpending
  | renewed hlive =>
    simp only [TaskRow.renewed] at hpending
    rw [isLiveOwner_running hlive] at hpending
    cases hpending
  | updated _ hlive =>
    simp only [TaskRow.updated] at hpending
    rw [isLiveOwner_running hlive] at hpending
    cases hpending
  | @finished _ call _ _ _ =>
    have hterminal := effective_isTerminal call row
    simp only [TaskRow.finished] at hpending
    rw [hpending] at hterminal
    cases hterminal

theorem taskStep_pending (e : TaskEvent (TaskDomain X))
    (h : ∀ {taskId row}, s.tasks.get taskId = some row → row.status = .pending →
      row.cancelRequested = false) (hrow' : (taskStep s e).tasks.get taskId = some row') (hpending : row'.status = .pending) :
    row'.cancelRequested = false := by
  have hwritten := taskStep_write s e
  cases hrow : s.tasks.get taskId with
  | none =>
    obtain ⟨data, -, rfl⟩ := hwritten.fresh taskId row' hrow hrow'
    rfl
  | some row =>
    obtain ⟨row₁, hrow₁, hcase⟩ := hwritten.row taskId row hrow
    rw [hrow'] at hrow₁
    cases hrow₁
    rcases hcase with rfl | ⟨_, hwrite⟩
    · exact h hrow hpending
    · exact absurd hpending (taskWrite_not_pending hwrite)

/-! ## The hooks of the services are those of the definitions -/

variable {settings : TaskSettings} {handlers : TaskHandlers X} {s : TaskSystem X}
  {store : TaskStore (TaskDomain X)}

theorem properHook_of_defined (h : Defined store taskId definition) (error : String) :
    ProperHook store taskId (definition.failureHook handlers error) := by
  obtain ⟨row, hrow, hdefinition⟩ := h
  intro row' definition' hrow' hdefinition' run
  rw [hrow] at hrow'
  cases hrow'
  rw [hdefinition] at hdefinition'
  cases hdefinition'
  exact runsOn_failureHook definition handlers error run

theorem properCall_of_defined (h : Defined store taskId definition)
    {call : FinishCall (TaskDomain X)}
    (hcall : ∀ row : TaskRow, getTaskDefinition row.type row.handlerVersion = .ok definition →
      ProperCall definition call) (workerId : String) :
    ProperOp store (.finishOwned taskId workerId call) := by
  obtain ⟨row, hrow, hdefinition⟩ := h
  intro row' definition' hrow' hdefinition'
  rw [hrow] at hrow'
  cases hrow'
  rw [hdefinition] at hdefinition'
  cases hdefinition'
  exact hcall row hdefinition

variable {owner : String}

theorem endingOp_proper (h : Defined store taskId definition) {timeoutSeconds : ℚ} {ending : Ending}
    {op : TaskOp (TaskDomain X)}
    (hop : endingOp settings handlers taskId definition owner timeoutSeconds ending = some op) :
    ProperOp store op := by
  cases ending with
  | leaseLost => cases hop
  | shutdown =>
    cases hop
    exact properHook_of_defined h _
  | success result =>
    cases hop
    refine properCall_of_defined h ?_ owner
    intro row hdefinition run
    exact ⟨runsOn_successHook definition handlers result run,
      runsOn_cancelHook hdefinition handlers cancelledError result run⟩
  | handlerUnavailable | timeout | cancelled | failed =>
    cases hop
    refine properCall_of_defined h ?_ owner
    intro row _ run
    exact runsOn_failureHook definition handlers _ run

section

variable (h : SystemInv s)
include h

variable {op : TaskOp (TaskDomain X)}

theorem deliveryOp_eq_some {k : Nat}
    {f : TaskId → TaskDefinition → String → ℚ → Option (TaskOp (TaskDomain X))}
    (hop : deliveryOp s k f = some op) :
    ∃ taskId definition owner timeoutSeconds, Defined s.store taskId definition ∧
      f taskId definition owner timeoutSeconds = some op := by
  unfold deliveryOp at hop
  split at hop
  · rename_i taskId definition owner timeoutSeconds hdelivery
    exact ⟨taskId, definition, owner, timeoutSeconds,
      h.deliveries (List.mem_of_getElem? hdelivery), hop⟩
  · cases hop

theorem publishOp_proper {call : PublishCall} (hcall : call ∈ s.publishes)
    (hop : publishOp handlers call = some op) :
    ProperOp s.store op := by
  obtain ⟨row, hrow, htype, hversion⟩ := h.publishes hcall
  obtain ⟨definition, hdefinition, -⟩ := h.hooks.known hrow
  have hdefined : Defined s.store call.taskId definition := ⟨row, hrow, hdefinition⟩
  obtain ⟨hone, -⟩ := handlerVersion_eq_one hdefinition
  -- A task of the store has a registered type in its only version.
  have hcurrent : getTaskDefinition call.record.type call.record.handlerVersion =
      .ok definition := by
    rw [← htype, ← hversion]
    exact hdefinition
  have hrecordOne : call.record.handlerVersion = 1 := hversion.symm.trans hone
  have hfirst : getTaskDefinition call.record.type 1 = .ok definition := by
    rw [← hrecordOne]
    exact hcurrent
  have hfailure : getFailureTaskDefinition call.record.type call.record.handlerVersion =
      .ok definition := by
    simp only [getFailureTaskDefinition, hrecordOne, one_ne_zero, if_false]
    exact hfirst
  simp only [publishOp, hfirst, hcurrent, hfailure, Except.toOption, Option.bind_some] at hop
  split_ifs at hop
  cases hop
  exact properHook_of_defined hdefined cancelledError

theorem transaction_proper {op : ServiceOp X} {t : TaskOp (TaskDomain X)}
    (ht : transaction settings handlers s op = some t) : ProperOp s.store t := by
  cases op with
  | enqueue taskId name taskType payload dedupeKey timeoutSeconds =>
    simp only [transaction] at ht
    split at ht
    · cases ht
    · rename_i definition hdefinition
      split_ifs at ht
      cases ht
      have hone := (handlerVersion_eq_one hdefinition).2
      exact ⟨definition, by simp only [hone]; exact hdefinition⟩
  | requestCancel k =>
    obtain ⟨call, hcall, rfl⟩ := Option.map_eq_some_iff.mp ht
    obtain ⟨habsent, hfound⟩ := h.cancels (List.mem_of_getElem? hcall)
    cases hdefinition : call.definition with
    | none =>
      intro row definition hrow
      rw [habsent hdefinition] at hrow
      cases hrow
    | some definition => exact properHook_of_defined (hfound definition hdefinition) _
  | start k owner =>
    simp only [transaction] at ht
    split at ht
    · rename_i taskId definition cancelRequested hdelivery
      have hdefined := h.deliveries (List.mem_of_getElem? hdelivery)
      split_ifs at ht
      · cases ht
        exact properHook_of_defined hdefined _
      · cases ht
        trivial
    · cases ht
  | heartbeat k =>
    obtain ⟨taskId, definition, owner, timeoutSeconds, -, hop⟩ := deliveryOp_eq_some h ht
    cases hop
    trivial
  | update k data =>
    obtain ⟨taskId, definition, owner, timeoutSeconds, -, hop⟩ := deliveryOp_eq_some h ht
    cases hop
    trivial
  | checkpoint k operation =>
    obtain ⟨taskId, definition, owner, timeoutSeconds, -, hop⟩ := deliveryOp_eq_some h ht
    cases hop
    intro row domain j domain' hrun
    simp only [runHook, checkpointHook] at hrun
    cases hoperation : operation domain.data j row with
    | error message => simp [hoperation] at hrun
    | ok data =>
      simp only [hoperation, Except.ok.injEq] at hrun
      subst hrun
      simp
  | finish k ending =>
    obtain ⟨taskId, definition, owner, timeoutSeconds, hdefined, hop⟩ :=
      deliveryOp_eq_some h ht
    exact endingOp_proper hdefined hop
  | reconcile scan =>
    cases ht
    intro row definition hdefinition
    exact runsOn_finalizeTaskFailure handlers leaseExpiredError hdefinition
  | publish k =>
    obtain ⟨call, hcall, hop⟩ := Option.bind_eq_some_iff.mp ht
    exact publishOp_proper h (List.mem_of_getElem? hcall) hop
  | domainWrite | cancelTask | deliver | crash | listPending => cases ht

/-! ## Along every run -/

variable (e : ServiceEvent X)

theorem commit_hooks :
    HookInv (commit settings handlers s e) := by
  unfold commit
  cases ht : transaction settings handlers s e.op with
  | none => exact h.hooks
  | some op => exact taskStep_hooks h.hooks h.pending (transaction_proper h ht)

theorem commit_pending (hrow : (commit settings handlers s e).tasks.get taskId = some row)
    (hpending : row.status = .pending) : row.cancelRequested = false := by
  unfold commit at hrow
  cases ht : transaction settings handlers s e.op with
  | none =>
    rw [ht] at hrow
    exact h.pending hrow hpending
  | some op =>
    rw [ht] at hrow
    exact taskStep_pending _ h.pending hrow hpending

end

variable (e : ServiceEvent X)

theorem commit_defined (h : Defined s.store taskId definition) :
    Defined (commit settings handlers s e) taskId definition := by
  unfold commit
  cases transaction settings handlers s e.op with
  | none => exact h
  | some op => exact h.taskStep _

theorem commit_identity (hrow : s.store.tasks.get taskId = some row) :
    ∃ row', (commit settings handlers s e).tasks.get taskId = some row' ∧
      row'.type = row.type ∧ row'.handlerVersion = row.handlerVersion := by
  unfold commit
  cases transaction settings handlers s e.op with
  | none => exact ⟨row, hrow, rfl, rfl⟩
  | some op => exact taskStep_identity _ hrow

/-- Only `enqueue` creates a task, and not under an id that somebody has asked for. -/
theorem transaction_create {op : ServiceOp X} {data : TaskData}
    (h : transaction settings handlers s op = some (.create taskId data)) :
    s.cancels.any (·.taskId == taskId) = false := by
  cases op with
  | enqueue j name taskType payload dedupeKey timeoutSeconds =>
    simp only [transaction] at h
    split at h
    · cases h
    · split_ifs at h with hasked
      cases h
      exact eq_false_of_ne_true hasked
  | requestCancel k =>
    obtain ⟨call, -, hcall⟩ := Option.map_eq_some_iff.mp h
    cases hcall
  | start k owner =>
    simp only [transaction] at h
    split at h
    · split_ifs at h <;> cases h
    · cases h
  | heartbeat k | update k data | checkpoint k operation =>
    simp only [transaction, deliveryOp] at h
    split at h <;> cases h
  | finish k ending =>
    simp only [transaction, deliveryOp] at h
    split at h
    · cases ending <;> cases h
    · cases h
  | reconcile scan => cases h
  | publish k =>
    obtain ⟨call, -, hcall⟩ := Option.bind_eq_some_iff.mp h
    simp only [publishOp] at hcall
    split at hcall
    · cases hcall
    · split_ifs at hcall
      · cases hcall
      · split at hcall <;> cases hcall
  | domainWrite | cancelTask | deliver | crash | listPending => cases h

variable {c : CancelCall}

/-- No task appears under an id that a call in progress has asked for in vain. -/
theorem commit_absent (hc : c ∈ s.cancels)
    (hnone : s.store.tasks.get c.taskId = none) (e : ServiceEvent X) :
    (commit settings handlers s e).tasks.get c.taskId = none := by
  unfold commit
  cases ht : transaction settings handlers s e.op with
  | none => exact hnone
  | some op =>
    cases hget : (taskStep s.store ⟨e.now, e.later, op⟩).tasks.get c.taskId with
    | none => rfl
    | some row =>
      obtain ⟨data, hop, -⟩ := (taskStep_write s.store _).fresh c.taskId row hnone hget
      subst hop
      have hasked : s.cancels.any (·.taskId == c.taskId) = true :=
        List.any_eq_true.mpr ⟨c, hc, by simp⟩
      rw [transaction_create ht] at hasked
      cases hasked

/-- A step keeps what its calls in progress know of their tasks, if it starts none. -/
theorem SystemInv.commit (h : SystemInv s) (e : ServiceEvent X) {deliveries : List Delivery}
    {cancels : List CancelCall} {publishes : List PublishCall}
    (hdeliveries : ∀ d ∈ deliveries, ∃ d₀ ∈ s.deliveries,
      d.taskId = d₀.taskId ∧ d.definition = d₀.definition)
    (hcancels : ∀ c ∈ cancels, c ∈ s.cancels) (hpublishes : ∀ c ∈ publishes, c ∈ s.publishes) :
    SystemInv ⟨commit settings handlers s e, deliveries, cancels, publishes⟩ where
  hooks := commit_hooks h e
  pending := commit_pending h e
  deliveries := by
    intro d hd
    obtain ⟨d₀, hd₀, htask, hdefinition⟩ := hdeliveries d hd
    rw [htask, hdefinition]
    exact commit_defined e (h.deliveries hd₀)
  cancels := by
    intro c hc
    obtain ⟨habsent, hfound⟩ := h.cancels (hcancels c hc)
    constructor
    · intro hnone
      exact commit_absent (hcancels c hc) (habsent hnone) e
    · intro definition hdefinition
      exact commit_defined e (hfound definition hdefinition)
  publishes := by
    intro c hc
    obtain ⟨row, hrow, htype, hversion⟩ := h.publishes (hpublishes c hc)
    obtain ⟨row', hrow', htype', hversion'⟩ := commit_identity e hrow
    exact ⟨row', hrow', htype'.trans htype, hversion'.trans hversion⟩

variable {d : Delivery}

theorem mem_startDelivery {k : Nat} {now : Time} (h : d ∈ startDelivery settings s k owner now) :
    ∃ d₀ ∈ s.deliveries, d.taskId = d₀.taskId ∧ d.definition = d₀.definition := by
  unfold startDelivery at h
  split at h
  · rename_i taskId definition hdelivery
    split at h
    · rcases List.mem_or_eq_of_mem_set h with hmem | rfl
      · exact ⟨d, hmem, rfl, rfl⟩
      · exact ⟨_, List.mem_of_getElem? hdelivery, rfl, rfl⟩
    · exact ⟨d, List.mem_of_mem_eraseIdx h, rfl, rfl⟩
  · exact ⟨d, List.mem_of_mem_eraseIdx h, rfl, rfl⟩
  · exact ⟨d, h, rfl, rfl⟩

theorem SystemInv.addCancel (h : SystemInv s)
    (habsent : c.definition = none → s.store.tasks.get c.taskId = none)
    (hfound : ∀ definition, c.definition = some definition → Defined s.store c.taskId definition) :
    SystemInv { s with cancels := s.cancels ++ [c] } where
  hooks := h.hooks
  pending := h.pending
  deliveries := h.deliveries
  publishes := h.publishes
  cancels := by
    intro c' hc'
    rcases List.mem_append.mp hc' with hold | hnew
    · exact h.cancels hold
    · rw [List.mem_singleton.mp hnew]
      exact ⟨habsent, hfound⟩

theorem SystemInv.addDelivery (h : SystemInv s) (hd : Defined s.store d.taskId d.definition) :
    SystemInv { s with deliveries := s.deliveries ++ [d] } where
  hooks := h.hooks
  pending := h.pending
  cancels := h.cancels
  publishes := h.publishes
  deliveries := by
    intro d' hd'
    rcases List.mem_append.mp hd' with hold | hnew
    · exact h.deliveries hold
    · rw [List.mem_singleton.mp hnew]
      exact hd

theorem SystemInv.addPublish (h : SystemInv s) {c : PublishCall}
    (hc : s.store.tasks.get c.taskId = some c.record) :
    SystemInv { s with publishes := s.publishes ++ [c] } where
  hooks := h.hooks
  pending := h.pending
  deliveries := h.deliveries
  cancels := h.cancels
  publishes := by
    intro c' hc'
    rcases List.mem_append.mp hc' with hold | hnew
    · exact h.publishes hold
    · rw [List.mem_singleton.mp hnew]
      exact ⟨c.record, hc, rfl, rfl⟩

theorem taskServiceStep_inv (h : SystemInv s) (e : ServiceEvent X) :
    SystemInv (taskServiceStep settings handlers s e) := by
  have hsame : ∀ d ∈ s.deliveries, ∃ d₀ ∈ s.deliveries,
      d.taskId = d₀.taskId ∧ d.definition = d₀.definition := fun d hd => ⟨d, hd, rfl, rfl⟩
  have hcommit : SystemInv { s with store := commit settings handlers s e } :=
    h.commit e hsame (fun c hc => hc) (fun c hc => hc)
  obtain ⟨now, later, op⟩ := e
  cases op with
  | enqueue | heartbeat | update | checkpoint | reconcile => exact hcommit
  | domainWrite f =>
    exact ⟨h.hooks.of_hooks_eq rfl rfl, h.pending, h.deliveries, h.cancels, h.publishes⟩
  | cancelTask taskId =>
    simp only [taskServiceStep]
    split
    · rename_i hnone
      exact h.addCancel (fun _ => hnone) (by intro definition hdefinition; cases hdefinition)
    · rename_i row hrow
      obtain ⟨definition, hdefinition, -⟩ := h.hooks.known hrow
      have hone := (handlerVersion_eq_one hdefinition).1
      have hfailure : getFailureTaskDefinition row.type row.handlerVersion = .ok definition := by
        simp only [getFailureTaskDefinition, hone, one_ne_zero, if_false]
        rw [← hone]
        exact hdefinition
      rw [hfailure]
      refine h.addCancel (by intro hnone; cases hnone) ?_
      intro definition' hsome
      cases hsome
      exact ⟨row, hrow, hdefinition⟩
  | requestCancel k =>
    exact h.commit _ hsame (fun c hc => List.mem_of_mem_eraseIdx hc) (fun c hc => hc)
  | deliver taskId =>
    simp only [taskServiceStep]
    split
    · exact h
    · rename_i row hrow
      split_ifs
      · exact h
      · split
        · exact h
        · rename_i definition hdefinition
          exact h.addDelivery ⟨row, hrow, hdefinition⟩
  | start k owner =>
    exact h.commit _ (fun d hd => mem_startDelivery hd) (fun c hc => hc) (fun c hc => hc)
  | finish k ending =>
    refine h.commit _ ?_ (fun c hc => hc) (fun c hc => hc)
    intro d hd
    split_ifs at hd
    · exact hsame d hd
    · exact hsame d (List.mem_of_mem_eraseIdx hd)
  | crash k =>
    exact ⟨h.hooks, h.pending, fun hd => h.deliveries (List.mem_of_mem_eraseIdx hd),
      h.cancels, h.publishes⟩
  | listPending taskId =>
    simp only [taskServiceStep]
    split
    · exact h
    · rename_i row hrow
      split_ifs
      · exact h.addPublish hrow
      · exact h
  | publish k =>
    exact h.commit _ hsame (fun c hc => hc) (fun c hc => List.mem_of_mem_eraseIdx hc)

theorem initial_systemInv (data : X) : SystemInv (TaskSystem.initial data) := by
  refine ⟨⟨?_, ?_⟩, ?_, ?_, ?_, ?_⟩
  · intro taskId row hrow
    simp [TaskSystem.initial, emptyStore] at hrow
  · intro taskId _
    rfl
  · intro taskId row hrow
    simp [TaskSystem.initial, emptyStore] at hrow
  · intro d hd
    cases hd
  · intro c hc
    cases hc
  · intro c hc
    cases hc

/-- What the services reach from an empty store. -/
def reached (settings : TaskSettings) (handlers : TaskHandlers X) (data : X)
    (es : List (ServiceEvent X)) : TaskSystem X :=
  Transition.exec (taskServiceStep settings handlers) (TaskSystem.initial data) es

theorem reached_inv (settings : TaskSettings) (handlers : TaskHandlers X) (data : X)
    (es : List (ServiceEvent X)) : SystemInv (reached settings handlers data es) := by
  have hstep : ∀ (t : TaskSystem X) (e : ServiceEvent X), SystemInv t →
      SystemInv (taskServiceStep settings handlers t e) := fun t e hinv =>
    taskServiceStep_inv hinv e
  exact Transition.exec_invariant (P := SystemInv) _ hstep (initial_systemInv data) es

/-! ## Exactly once -/

/-- No pending task has a request to cancel, so `claim` never cancels one without its hook. -/
def NoPendingCancel (s : TaskSystem X) : Prop :=
  ∀ taskId row, s.store.tasks.get taskId = some row → row.status = .pending →
    row.cancelRequested = false

/-- The task is of a registered type with a success handler and a failure handler. -/
def HasBothHandlers (row : TaskRow) : Prop :=
  ∃ definition, getTaskDefinition row.type row.handlerVersion = .ok definition ∧
    definition.successFunction.isSome ∧ definition.failureFunction.isSome

/-- The hooks that the step into a status commits. -/
def endingHooks : TaskStatus → List HookKind
  | .pending | .running => []
  | .success => [.success]
  | .failed | .cancelled => [.failure]

/-- The hooks committed for the tasks with both handlers are those of their statuses. -/
def HooksMatch (s : TaskSystem X) : Prop :=
  ∀ taskId row, s.store.tasks.get taskId = some row → HasBothHandlers row →
    s.store.domain.hookRuns taskId = endingHooks row.status

/-- A step commits a hook of a task exactly when it ends the task, and then the one hook of its
new status. -/
def HooksCommitted (s s' : TaskSystem X) : Prop :=
  ∀ taskId row', s'.store.tasks.get taskId = some row' → HasBothHandlers row' →
    s'.store.domain.hookRuns taskId = s.store.domain.hookRuns taskId ++
      if (s.store.tasks.get taskId).map (·.status) = some row'.status then []
      else endingHooks row'.status

theorem SystemInv.hooksMatch (h : SystemInv s) : HooksMatch s := by
  rintro taskId row hrow ⟨definition, hdefinition, hsuccess, hfailure⟩
  obtain ⟨definition', hdefinition', hruns⟩ := h.hooks.known hrow
  rw [hdefinition] at hdefinition'
  cases hdefinition'
  rw [hruns]
  cases row.status <;>
    simp [TaskDefinition.expectedHooks, endingHooks, TaskDefinition.successHooks,
      TaskDefinition.failureHooks, hsuccess, hfailure]

theorem taskServiceStep_tasks :
    (taskServiceStep settings handlers s e).store.tasks = (commit settings handlers s e).tasks := by
  obtain ⟨now, later, op⟩ := e
  cases op with
  | enqueue | heartbeat | update | checkpoint | reconcile | requestCancel | start | finish
  | publish | domainWrite | crash => rfl
  | cancelTask taskId =>
    simp only [taskServiceStep]
    split
    · rfl
    · split <;> rfl
  | deliver taskId =>
    simp only [taskServiceStep]
    split
    · rfl
    · split_ifs
      · rfl
      · split <;> rfl
  | listPending taskId =>
    simp only [taskServiceStep]
    split
    · rfl
    · split_ifs <;> rfl

theorem taskServiceStep_row (hrow : s.store.tasks.get taskId = some row)
    (hrow' : (taskServiceStep settings handlers s e).store.tasks.get taskId = some row') :
    row'.type = row.type ∧ row'.handlerVersion = row.handlerVersion ∧
      (row.status.isTerminal → row'.status = row.status) := by
  rw [taskServiceStep_tasks] at hrow'
  unfold commit at hrow'
  cases ht : transaction settings handlers s e.op with
  | none =>
    rw [ht, hrow] at hrow'
    cases hrow'
    exact ⟨rfl, rfl, fun _ => rfl⟩
  | some op =>
    rw [ht] at hrow'
    obtain ⟨row₁, hrow₁, hcase⟩ :=
      (taskStep_write s.store ⟨e.now, e.later, op⟩).row taskId row hrow
    rw [hrow'] at hrow₁
    cases hrow₁
    rcases hcase with rfl | ⟨_, hwrite⟩
    · exact ⟨rfl, rfl, fun _ => rfl⟩
    · obtain ⟨htype, hversion⟩ := taskWrite_identity hwrite
      refine ⟨htype, hversion, ?_⟩
      intro hterminal
      rw [hwrite.not_terminal] at hterminal
      cases hterminal

theorem SystemInv.hooksCommitted (h : SystemInv s) (e : ServiceEvent X) :
    HooksCommitted s (taskServiceStep settings handlers s e) := by
  intro taskId row' hrow' hboth
  have hnew := (taskServiceStep_inv h e).hooksMatch taskId row' hrow' hboth
  rw [hnew]
  cases hrow : s.store.tasks.get taskId with
  | none => simp [h.hooks.absent hrow]
  | some row =>
    obtain ⟨htype, hversion, hended⟩ := taskServiceStep_row e hrow hrow'
    have hbothOld : HasBothHandlers row := by
      unfold HasBothHandlers
      rw [← htype, ← hversion]
      exact hboth
    rw [h.hooksMatch taskId row hrow hbothOld]
    simp only [Option.map_some, Option.some.injEq]
    split_ifs with hsame
    · rw [hsame, List.append_nil]
    · have hopen : ¬ row.status.isTerminal := fun hterminal => hsame (hended hterminal).symm
      cases hstatus : row.status <;>
        simp [hstatus, TaskStatus.isTerminal, endingHooks] at hopen ⊢

end TaskService

end Yuanlei
