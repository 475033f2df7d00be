import Yuanlei.AgentRun.Repository
import Mathlib.Logic.Relation

/-!
# What one transaction can do to one run

A run is seen through its row and its attempt ledger.  Every operation of the
repository acts on such a view by one of a few writes, each with the guard that
the operation checks; the invariants of runs are proved on these writes and never
unfold an operation again.

Main definitions:

- `CreateWrite`: the insertion of a run.
- `OwnerWrite`: a write made on behalf of one caller.
-/

namespace Yuanlei

/-- The attempts of one run by `attempt_no`. -/
abbrev Ledger := Nat → Option AgentRunAttempt

/-- The row of a run, if it exists, with its attempts. -/
structure RunView where
  run : Option AgentRun
  ledger : Ledger

/-- The view of one run in the database. -/
def Database.view (db : Database) (runId : RunId) : RunView where
  run := db.runs.get runId
  ledger := fun attemptNo => db.attempts.get (runId, attemptNo)

variable (db : Database)

@[simp]
theorem Database.view_run (runId : RunId) :
    (db.view runId).run = db.runs.get runId :=
  rfl

@[simp]
theorem Database.view_ledger (runId : RunId) (attemptNo : Nat) :
    (db.view runId).ledger attemptNo = db.attempts.get (runId, attemptNo) :=
  rfl

theorem Database.view_congr {db db' : Database} (hruns : db'.runs = db.runs)
    (hattempts : db'.attempts = db.attempts) (runId : RunId) :
    db'.view runId = db.view runId := by
  simp [Database.view, hruns, hattempts]

/-! ## Ledger operations -/

namespace Ledger

/-- Every open attempt is ended; closed attempts stay as they are. -/
def closeAll (ledger : Ledger) (outcome : AttemptOutcome) (errorType errorMessage : Option String)
    (now : Time) : Ledger := fun k =>
  (ledger k).map fun a =>
    if a.finishedAt = none then a.finished outcome errorType errorMessage now else a

/-- The attempt `k` is open and, when a worker is given, belongs to it. -/
def OpenAt (ledger : Ledger) (workerId : Option String) (k : Nat) : Prop :=
  ∃ a, ledger k = some a ∧ a.finishedAt = none ∧ ∀ w ∈ workerId, a.workerId = w

/-- The open attempt with the greatest number is rewritten, if there is one. -/
inductive UpdatesOpen (workerId : Option String) (f : AgentRunAttempt → AgentRunAttempt) :
    Ledger → Ledger → Prop
  | latest {ledger : Ledger} {k : Nat} (hopen : ledger.OpenAt workerId k)
      (hmax : ∀ j, ledger.OpenAt workerId j → j ≤ k) :
      UpdatesOpen workerId f ledger (Function.update ledger k ((ledger k).map f))
  | absent {ledger : Ledger} (hnone : ∀ k, ¬ ledger.OpenAt workerId k) :
      UpdatesOpen workerId f ledger ledger

/-- `n` is the greatest attempt number, or zero when there is no attempt. -/
def IsMaxNo (ledger : Ledger) (n : Nat) : Prop :=
  (∀ k a, ledger k = some a → k ≤ n) ∧ (n = 0 ∨ (ledger n).isSome)

end Ledger

/-! ## The effect of the row helpers on views -/

namespace Database

variable (db : Database)

@[simp]
theorem setRun_attempts (runId : RunId) (run : AgentRun) :
    (db.setRun runId run).attempts = db.attempts :=
  rfl

theorem get_setRun (runId j : RunId) (run : AgentRun) : (db.setRun runId run).runs.get j =
      if j = runId then (db.runs.get j).map fun _ => run else db.runs.get j := by
  simp [setRun, Table.get_modify]

variable {runId : RunId}

theorem get_setRun_self {run₀ : AgentRun} (hrun : db.runs.get runId = some run₀)
    (run : AgentRun) : (db.setRun runId run).runs.get runId = some run := by
  simp [get_setRun, hrun]

variable {j : RunId}

@[simp]
theorem get_setRun_of_ne (hne : j ≠ runId) (run : AgentRun) :
    (db.setRun runId run).runs.get j = db.runs.get j := by
  simp [get_setRun, hne]

variable (run : AgentRun)

@[simp]
theorem projectInputDeliveryStatus_runs :
    (db.projectInputDeliveryStatus run).runs = db.runs := by
  unfold projectInputDeliveryStatus
  split <;> rfl

@[simp]
theorem projectInputDeliveryStatus_attempts :
    (db.projectInputDeliveryStatus run).attempts = db.attempts := by
  unfold projectInputDeliveryStatus
  split <;> rfl

@[simp]
theorem closeRunningAudits_runs (runId : RunId) (status : ExecutionStatus) (now : Time)
    (preserve : Bool) : (db.closeRunningAudits runId status now preserve).runs = db.runs :=
  rfl

@[simp]
theorem closeRunningAudits_attempts (runId : RunId) (status : ExecutionStatus) (now : Time)
    (preserve : Bool) :
    (db.closeRunningAudits runId status now preserve).attempts = db.attempts :=
  rfl

@[simp]
theorem closeOpenAttempts_runs (runId : RunId) (outcome : AttemptOutcome)
    (errorType errorMessage : Option String) (now : Time) :
    (db.closeOpenAttempts runId outcome errorType errorMessage now).runs = db.runs :=
  rfl

theorem closeOpenAttempts_get (runId j : RunId) (outcome : AttemptOutcome)
    (errorType errorMessage : Option String) (now : Time) (k : Nat) :
    (db.closeOpenAttempts runId outcome errorType errorMessage now).attempts.get (j, k) =
      if j = runId then
        (db.view j).ledger.closeAll outcome errorType errorMessage now k
      else db.attempts.get (j, k) := by
  unfold closeOpenAttempts Ledger.closeAll
  by_cases hj : j = runId
  · simp [hj]
  · cases hget : db.attempts.get (j, k) <;> simp [hj, hget]

@[simp]
theorem updateOpenAttempt_runs (runId : RunId) (workerId : Option String)
    (f : AgentRunAttempt → AgentRunAttempt) :
    (db.updateOpenAttempt runId workerId f).runs = db.runs := by
  unfold updateOpenAttempt
  split <;> rfl

theorem mem_openAttempts (runId : RunId) (workerId : Option String) (k : Nat) :
    k ∈ (db.attempts.rows.filter fun e =>
        e.1.1 = runId && e.2.finishedAt.isNone && workerId.all (· == e.2.workerId)).map
          (fun e => e.1.2) ↔
      (db.view runId).ledger.OpenAt workerId k := by
  constructor
  · intro hmem
    obtain ⟨⟨⟨j, k'⟩, a⟩, he, rfl⟩ := List.mem_map.mp hmem
    obtain ⟨hrow, hcond⟩ := List.mem_filter.mp he
    simp only [Bool.and_eq_true, decide_eq_true_eq, Option.isNone_iff_eq_none] at hcond
    obtain ⟨⟨rfl, hopen⟩, hworker⟩ := hcond
    refine ⟨a, (db.attempts.mem_rows_iff _ _).mp hrow, hopen, ?_⟩
    intro w hw
    cases hw
    exact (by simpa using hworker : w = a.workerId).symm
  · rintro ⟨a, hget, hopen, hworker⟩
    refine List.mem_map.mpr ⟨((runId, k), a), List.mem_filter.mpr ⟨?_, ?_⟩, rfl⟩
    · exact (db.attempts.mem_rows_iff _ _).mpr hget
    · cases workerId with
      | none => simp [hopen]
      | some w => simp [hopen, hworker w rfl]

theorem updateOpenAttempt_updatesOpen (runId : RunId) (workerId : Option String)
    (f : AgentRunAttempt → AgentRunAttempt) :
    Ledger.UpdatesOpen workerId f (db.view runId).ledger
      ((db.updateOpenAttempt runId workerId f).view runId).ledger := by
  unfold updateOpenAttempt
  cases hfound : db.getOpenAttempt runId workerId with
  | none =>
    have hempty := List.argmax_eq_none.mp hfound
    refine .absent fun k hopen => ?_
    have hmem := (db.mem_openAttempts runId workerId k).mpr hopen
    rw [hempty] at hmem
    exact absurd hmem List.not_mem_nil
  | some k =>
    have hk := List.argmax_mem hfound
    have hopen := (db.mem_openAttempts runId workerId k).mp hk
    have hmax : ∀ j, (db.view runId).ledger.OpenAt workerId j → j ≤ k := fun j hj =>
      List.le_of_mem_argmax ((db.mem_openAttempts runId workerId j).mpr hj) hfound
    have hledger :
        (Database.view { db with attempts := db.attempts.modify (runId, k) f } runId).ledger =
          Function.update (db.view runId).ledger k (((db.view runId).ledger k).map f) := by
      funext j
      by_cases hj : j = k
      · subst j
        simp [Database.view]
      · simp [Database.view, Table.get_modify, hj]
    simp only
    rw [hledger]
    exact .latest hopen hmax

theorem updateOpenAttempt_get_of_ne (hne : j ≠ runId)
    (workerId : Option String) (f : AgentRunAttempt → AgentRunAttempt) (k : Nat) :
    (db.updateOpenAttempt runId workerId f).attempts.get (j, k) = db.attempts.get (j, k) := by
  unfold updateOpenAttempt
  split
  · rfl
  · exact Table.get_modify_of_ne _ (by simp [hne]) f

theorem maxAttemptNo_isMaxNo (runId : RunId) :
    (db.view runId).ledger.IsMaxNo (db.maxAttemptNo runId) := by
  have hmem : ∀ k, k ∈ (db.attempts.rows.filter fun e => e.1.1 = runId).map (fun e => e.1.2) ↔
      ∃ a, db.attempts.get (runId, k) = some a := by
    intro k
    constructor
    · intro h
      obtain ⟨⟨⟨j, k'⟩, a⟩, he, rfl⟩ := List.mem_map.mp h
      obtain ⟨hrow, hj⟩ := List.mem_filter.mp he
      obtain rfl : j = runId := by simpa using hj
      exact ⟨a, (db.attempts.mem_rows_iff _ _).mp hrow⟩
    · rintro ⟨a, ha⟩
      exact List.mem_map.mpr ⟨((runId, k), a), List.mem_filter.mpr
        ⟨(db.attempts.mem_rows_iff _ _).mpr ha, by simp⟩, rfl⟩
  have hfold : ∀ ks : List Nat, (∀ k ∈ ks, k ≤ ks.foldr max 0) ∧
      (ks.foldr max 0 = 0 ∨ ks.foldr max 0 ∈ ks) := by
    intro ks
    induction ks with
    | nil => simp
    | cons k ks ih =>
      simp only [List.foldr_cons, List.mem_cons, forall_eq_or_imp]
      refine ⟨⟨le_max_left _ _, fun j hj => le_trans (ih.1 j hj) (le_max_right _ _)⟩, ?_⟩
      rcases le_total (ks.foldr max 0) k with hle | hle
      · exact .inr (.inl (max_eq_left hle))
      · rw [max_eq_right hle]
        rcases ih.2 with hzero | hin
        · exact .inl hzero
        · exact .inr (.inr hin)
  constructor
  · intro k a ha
    exact (hfold _).1 k ((hmem k).mpr ⟨a, ha⟩)
  · rcases (hfold ((db.attempts.rows.filter fun e => e.1.1 = runId).map
        (fun e => e.1.2))).2 with hzero | hin
    · exact .inl hzero
    · obtain ⟨a, ha⟩ := (hmem _).mp hin
      right
      rw [Database.view_ledger]
      exact Option.isSome_iff_exists.mpr ⟨a, ha⟩

end Database

/-! ## Writes -/

open AgentRunRepository

/-- A stamp is kept, or set for the first time and not before the stamp that precedes it. -/
def StampSet (preceding stamp stamp' : Option Time) : Prop :=
  stamp' = stamp ∨ stamp = none ∧ ∃ s ∈ preceding, ∃ t ∈ stamp', s ≤ t

/-- The columns of a run that only its owner records while it executes. -/
structure AgentRun.Records (run run' : AgentRun) : Prop where
  same : run' = { run with
    outputMessageId := run'.outputMessageId
    langfuseTraceId := run'.langfuseTraceId
    manifest := run'.manifest
    manifestFingerprint := run'.manifestFingerprint
    manifestRecordedAt := run'.manifestRecordedAt
    preparedAt := run'.preparedAt
    firstModelRequestAt := run'.firstModelRequestAt
    firstOutputAt := run'.firstOutputAt
    updatedAt := run'.updatedAt }
  prepared : StampSet run.startedAt run.preparedAt run'.preparedAt
  firstOutput : StampSet run.preparedAt run.firstOutputAt run'.firstOutputAt

/-- The insertion of a run. -/
inductive CreateWrite (now : Time) : RunView → RunView → Prop
  | created {args : CreateRun} {ledger : Ledger} (hshape : (args.row now).shapeOk) :
      CreateWrite now ⟨none, ledger⟩ ⟨some (args.row now), ledger⟩

/-- A write that one caller makes to the run it names, at the given clock reading. -/
inductive OwnerWrite (now : Time) : RunView → RunView → Prop
  | opened {run : AgentRun} {ledger : Ledger} {workerId : String} {leaseSeconds : Int} {n : Nat}
      (hseconds : 0 < leaseSeconds) (hlive : run.status.isTerminal = false)
      (hclean : run.runtimeCleanupPending = false) (hclaim : run.initialClaim)
      (hmax : ledger.IsMaxNo n) :
      OwnerWrite now ⟨some run, ledger⟩ ⟨some (run.claimed workerId leaseSeconds now),
          Function.update (ledger.closeAll .leaseExpired (some "worker_lease_expired")
            (some "执行占有人在取得新所有权前已失联。") now) (n + 1)
            (some (.opened workerId (some (now + leaseSeconds)) now))⟩
  | continued {run : AgentRun} {ledger ledger' : Ledger} {workerId : String} {leaseSeconds : Int}
      (hseconds : 0 < leaseSeconds) (howner : run.leasedOwner workerId now)
      (hledger : Ledger.UpdatesOpen (some workerId)
        (fun a => a.heartbeat (some (now + leaseSeconds)) now) ledger ledger') :
      OwnerWrite now ⟨some run, ledger⟩ ⟨some (run.claimed workerId leaseSeconds now), ledger'⟩
  | renewed {run : AgentRun} {ledger ledger' : Ledger} {workerId : String} {leaseSeconds : Int}
      (hseconds : 0 < leaseSeconds) (howner : run.leasedOwner workerId now)
      (hledger : Ledger.UpdatesOpen (some workerId)
        (fun a => a.heartbeat (some (now + leaseSeconds)) now) ledger ledger') :
      OwnerWrite now ⟨some run, ledger⟩ ⟨some (run.renewed leaseSeconds now), ledger'⟩
  | released {run : AgentRun} {ledger ledger' : Ledger} {workerId : String}
      (howner : run.runningOwner workerId now)
      (hledger : Ledger.UpdatesOpen (some workerId)
        (fun a => a.finished .retryReleased none none now) ledger ledger') :
      OwnerWrite now ⟨some run, ledger⟩ ⟨some (run.retryReleased now), ledger'⟩
  | terminated {run : AgentRun} {ledger ledger' : Ledger} {status : RunStatus}
      {errorType errorMessage : Option String} {tokenUsage : Option JsonObject}
      {workerId : Option String} (hterminal : status.isTerminal)
      (hguard : terminalGuard run status workerId now)
      (hledger : Ledger.UpdatesOpen workerId
        (fun a => a.finished status.attemptOutcome errorType errorMessage now) ledger ledger') :
      OwnerWrite now ⟨some run, ledger⟩
        ⟨some (run.terminated status errorType errorMessage tokenUsage now), ledger'⟩
  | cleared {run : AgentRun} {ledger : Ledger} (hterminal : run.status.isTerminal)
      (hleftover : run.workerId.isSome ∨ run.heartbeatAt.isSome ∨ run.leaseExpiresAt.isSome) :
      OwnerWrite now ⟨some run, ledger⟩ ⟨some { run.leaseCleared with updatedAt := now }, ledger⟩
  | recorded {run run' : AgentRun} {ledger : Ledger} {workerId : String}
      (howner : run.leasedOwner workerId now) (hrecords : run.Records run') :
      OwnerWrite now ⟨some run, ledger⟩ ⟨some run', ledger⟩

/-- A write that ends a run, or asks it to end, from outside its owner. -/
inductive ClosingWrite : RunView → RunView → Prop
  | cancelledBeforeStart {run : AgentRun} {ledger : Ledger} {now : Time} (hfresh : run.notStarted) :
      ClosingWrite ⟨some run, ledger⟩ ⟨some (run.cancelledBeforeStart now), ledger⟩
  | cancelAsked {run : AgentRun} {ledger : Ledger} {now : Time}
      (hlive : run.status.isTerminal = false) :
      ClosingWrite ⟨some run, ledger⟩ ⟨some (run.cancelAsked now), ledger⟩
  | treeCancelled {run : AgentRun} {ledger : Ledger} {now : Time} (hfresh : run.notStarted) :
      ClosingWrite ⟨some run, ledger⟩ ⟨some (run.treeCancelled now),
          ledger.closeAll .cancelled run.treeClosed.errorType run.treeClosed.errorMessage now⟩
  | treeCancelAsked {run : AgentRun} {ledger : Ledger} {now : Time}
      (hlive : run.status.isTerminal = false) :
      ClosingWrite ⟨some run, ledger⟩ ⟨some (run.treeCancelAsked now), ledger⟩
  | leaseLost {run : AgentRun} {ledger : Ledger} {now : Time}
      (hlive : run.status.isTerminal = false) :
      ClosingWrite ⟨some run, ledger⟩ ⟨some (run.leaseLost now),
          ledger.closeAll .leaseExpired (some "worker_lease_expired")
            (some "执行 worker 的 lease 已过期；本次运行结果未知。") now⟩
  | storageMigrated {run : AgentRun} {ledger : Ledger} {now : Time}
      (hlive : run.status.isTerminal = false) :
      ClosingWrite ⟨some run, ledger⟩ ⟨some (run.storageMigrated now),
          ledger.closeAll .failed (some "storage_migration") (some "存储升级已停止旧运行环境；本次运行未完成") now⟩

/-- A closing write of the running service: by a cancellation or a reconciliation, not by
the storage migration that runs while the service is down. -/
inductive ServiceClosingWrite : RunView → RunView → Prop
  | cancelledBeforeStart {run : AgentRun} {ledger : Ledger} {now : Time} (hfresh : run.notStarted) :
      ServiceClosingWrite ⟨some run, ledger⟩ ⟨some (run.cancelledBeforeStart now), ledger⟩
  | cancelAsked {run : AgentRun} {ledger : Ledger} {now : Time}
      (hlive : run.status.isTerminal = false) :
      ServiceClosingWrite ⟨some run, ledger⟩ ⟨some (run.cancelAsked now), ledger⟩
  | treeCancelled {run : AgentRun} {ledger : Ledger} {now : Time} (hfresh : run.notStarted) :
      ServiceClosingWrite ⟨some run, ledger⟩ ⟨some (run.treeCancelled now),
          ledger.closeAll .cancelled run.treeClosed.errorType run.treeClosed.errorMessage now⟩
  | treeCancelAsked {run : AgentRun} {ledger : Ledger} {now : Time}
      (hlive : run.status.isTerminal = false) :
      ServiceClosingWrite ⟨some run, ledger⟩ ⟨some (run.treeCancelAsked now), ledger⟩
  | leaseLost {run : AgentRun} {ledger : Ledger} {now : Time}
      (hlive : run.status.isTerminal = false) :
      ServiceClosingWrite ⟨some run, ledger⟩ ⟨some (run.leaseLost now),
          ledger.closeAll .leaseExpired (some "worker_lease_expired")
            (some "执行 worker 的 lease 已过期；本次运行结果未知。") now⟩

theorem ServiceClosingWrite.closing {v v' : RunView} (h : ServiceClosingWrite v v') :
    ClosingWrite v v' := by
  cases h with
  | cancelledBeforeStart hfresh => exact .cancelledBeforeStart hfresh
  | cancelAsked hlive => exact .cancelAsked hlive
  | treeCancelled hfresh => exact .treeCancelled hfresh
  | treeCancelAsked hlive => exact .treeCancelAsked hlive
  | leaseLost hlive => exact .leaseLost hlive

end Yuanlei
