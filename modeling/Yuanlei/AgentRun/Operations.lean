import Yuanlei.AgentRun.View
import Yuanlei.AgentRun.ExecutionTree
import Yuanlei.Lib.Transition

/-!
# Runs of the agent-run repository

The operations of `AgentRunRepository` as the labels of a transition
system on the database, and what each of them can do to the view of a run.

Main results:

- `step`: one operation at one clock reading.
- `step_effect`: every operation does this or inserts one run.
-/

namespace Yuanlei.AgentRunRepository

open Relation

/-! ## Effects of owner operations -/

/-- Every view is kept or changed by one owner write. -/
def OwnerStep (now : Time) (db db' : Database) : Prop :=
  ∀ j, db'.view j = db.view j ∨ OwnerWrite now (db.view j) (db'.view j)

theorem OwnerStep.refl (now : Time) (db : Database) : OwnerStep now db db :=
  fun _ => .inl rfl

variable {now : Time} {db db' : Database}

theorem OwnerStep.of_run (runId : RunId) (hother : ∀ j, j ≠ runId → db'.view j = db.view j)
    (hself : OwnerWrite now (db.view runId) (db'.view runId)) : OwnerStep now db db' := by
  intro j
  by_cases hj : j = runId
  · subst j
    exact .inr hself
  · exact .inl (hother j hj)

variable {runId : RunId} {run : AgentRun}

theorem view_of_get (hrun : db.runs.get runId = some run) :
    db.view runId = ⟨some run, (db.view runId).ledger⟩ := by
  simp [Database.view, hrun]

theorem view_setRun_self (hrun : db.runs.get runId = some run) (run' : AgentRun) :
    (db.setRun runId run').view runId = ⟨some run', (db.view runId).ledger⟩ := by
  simp [Database.view, Database.get_setRun, hrun]

variable {j : RunId}

theorem view_setRun_of_ne (db : Database) (hne : j ≠ runId)
    (run' : AgentRun) : (db.setRun runId run').view j = db.view j := by
  simp [Database.view, hne]

variable {workerId : String}

theorem OwnerStep.of_records {run' : AgentRun} (hrun : db.runs.get runId = some run)
    (howner : run.leasedOwner workerId now) (hrecords : run.Records run') :
    OwnerStep now db (db.setRun runId run') := by
  refine .of_run runId (fun j hj => view_setRun_of_ne db hj run') ?_
  rw [view_of_get hrun, view_setRun_self hrun]
  exact .recorded howner hrecords

theorem leasedOwner_of_runningOwner (h : run.runningOwner workerId now) : run.leasedOwner workerId now := by
  simp only [AgentRun.runningOwner, AgentRun.leasedOwner, AgentRun.ownedBy, Bool.and_eq_true,
    beq_iff_eq] at h ⊢
  obtain ⟨⟨hstatus, hworker⟩, hlease⟩ := h
  exact ⟨⟨by simp [hstatus, RunStatus.isLeased], hworker⟩, hlease⟩

theorem requireLeaseOwner_eq_ok {action : String} {u : Unit}
    (h : requireLeaseOwner run workerId now action = .ok u) :
    run.runningOwner workerId now := by
  unfold requireLeaseOwner at h
  split at h
  · assumption
  · cases h

theorem isTerminal_of_claimed {leaseSeconds : Int}
    (h : (run.claimed workerId leaseSeconds now).status.isTerminal) : run.status.isTerminal := by
  by_cases hpending : run.status = .pending <;>
    simp_all [AgentRun.claimed, RunStatus.isTerminal]

/-- What an operation of a caller that does not end the run writes. -/
inductive LeaseOp (now : Time) (db : Database) : Database → Prop
  | kept : LeaseOp now db db
  | recorded {runId : RunId} {run run' : AgentRun} {workerId : String}
      (hrun : db.runs.get runId = some run) (howner : run.leasedOwner workerId now)
      (hrecords : run.Records run') : LeaseOp now db (db.setRun runId run')
  | opened {runId : RunId} {run : AgentRun} {workerId : String} {leaseSeconds : Int}
      {db₁ : Database} {attempts : Table (RunId × Nat) AgentRunAttempt}
      (hrun : db.runs.get runId = some run) (hseconds : 0 < leaseSeconds)
      (hlive : run.status.isTerminal = false) (hclean : run.runtimeCleanupPending = false)
      (hclaim : run.initialClaim)
      (hclosed : db₁ = (db.setRun runId (run.claimed workerId leaseSeconds now)).closeOpenAttempts
        runId .leaseExpired (some "worker_lease_expired")
        (some "执行占有人在取得新所有权前已失联。") now)
      (hinsert : db₁.attempts.insert (runId, db₁.maxAttemptNo runId + 1)
        (.opened workerId (some (now + leaseSeconds)) now) = some attempts) :
      LeaseOp now db { db₁ with attempts := attempts }
  | continued {runId : RunId} {run : AgentRun} {workerId : String} {leaseSeconds : Int}
      (hrun : db.runs.get runId = some run) (hseconds : 0 < leaseSeconds)
      (howner : run.leasedOwner workerId now) :
      LeaseOp now db ((db.setRun runId (run.claimed workerId leaseSeconds now)).updateOpenAttempt
        runId (some workerId) fun a => a.heartbeat (some (now + leaseSeconds)) now)
  | renewed {runId : RunId} {run : AgentRun} {workerId : String} {leaseSeconds : Int}
      (hrun : db.runs.get runId = some run) (hseconds : 0 < leaseSeconds)
      (howner : run.leasedOwner workerId now) :
      LeaseOp now db ((db.setRun runId (run.renewed leaseSeconds now)).updateOpenAttempt
        runId (some workerId) fun a => a.heartbeat (some (now + leaseSeconds)) now)
  | released {runId : RunId} {run : AgentRun} {workerId : String}
      (hrun : db.runs.get runId = some run) (howner : run.runningOwner workerId now) :
      LeaseOp now db ((db.setRun runId (run.retryReleased now)).updateOpenAttempt
        runId (some workerId) fun a => a.finished .retryReleased none none now)

section Operations

variable {α : Type} {missing : Transaction String α}

/-- An operation that starts with its run. -/
theorem LeaseOp.of_get {write : AgentRun → Transaction String α}
    (hmissing : LeaseOp now db (db.after missing))
    (h : ∀ run, db.runs.get runId = some run → LeaseOp now db (db.after (write run))) :
    LeaseOp now db (db.after (match db.runs.get runId with
      | none => missing
      | some run => write run)) := by
  cases hrun : db.runs.get runId with
  | none => exact hmissing
  | some run => exact h run hrun

theorem LeaseOp.of_required {action : String}
    (h : run.leasedOwner workerId now → LeaseOp now db (db.after missing)) :
    LeaseOp now db (db.after (match requireLeaseOwner run workerId now action with
      | .error e => .error e
      | .ok () => missing)) := by
  cases howner : requireLeaseOwner run workerId now action with
  | error e => exact .kept
  | ok u => exact h (leasedOwner_of_runningOwner (requireLeaseOwner_eq_ok howner))

end Operations

theorem setLangfuseTraceId_leaseOp (db : Database) (runId : RunId) (traceId workerId : String)
    (now : Time) :
    LeaseOp now db (db.after (setLangfuseTraceId db runId traceId workerId now)) := by
  unfold setLangfuseTraceId
  simp only
  split_ifs with htrace hworker
  · exact .kept
  · exact .kept
  · refine .of_get .kept fun run hrun => .of_required fun howner => ?_
    split
    · exact .kept
    · exact .recorded hrun howner ⟨rfl, .inl rfl, .inl rfl⟩

theorem setOutputMessage_leaseOp (db : Database) (runId : RunId) (messageId : Nat)
    (workerId : String) (now : Time) :
    LeaseOp now db (db.after (setOutputMessage db runId messageId workerId now)) := by
  unfold setOutputMessage
  split_ifs with hworker
  · exact .kept
  · refine .of_get .kept fun run hrun => .of_required fun howner => ?_
    cases db.matchingOutputMessage runId run messageId with
    | none => exact .kept
    | some m => exact .recorded hrun howner ⟨rfl, .inl rfl, .inl rfl⟩

theorem recordRunManifest_leaseOp (db : Database) (runId : RunId) (manifest : JsonObject)
    (fingerprint workerId : String) (now : Time) :
    LeaseOp now db (db.after (recordRunManifest db runId manifest fingerprint workerId now)) := by
  unfold recordRunManifest
  split_ifs with hworker hfingerprint
  · exact .kept
  · exact .kept
  · refine .of_get .kept fun run hrun => .of_required fun howner => ?_
    split
    · exact .kept
    · exact .recorded hrun howner ⟨rfl, .inl rfl, .inl rfl⟩

theorem stampSet_of_unset {preceding stamp : Option Time} {eventTime : Time}
    (hunset : ¬ stamp.isSome) (hearly : ¬ preceding.all fun t => decide (eventTime < t)) :
    StampSet preceding stamp (some eventTime) := by
  cases preceding with
  | none => simp at hearly
  | some s => exact .inr ⟨by simpa using hunset, s, rfl, eventTime, rfl, by simpa using hearly⟩

theorem recordPrepared_leaseOp (db : Database) (runId : RunId) (workerId : String)
    (observedAt : Option Time) (now : Time) :
    LeaseOp now db (db.after (recordPrepared db runId workerId observedAt now)) := by
  unfold recordPrepared
  refine .of_get .kept fun run hrun => ?_
  split
  · exact .kept
  · rename_i hunset
    refine .of_required fun howner => ?_
    simp only
    split
    · exact .kept
    · rename_i hearly
      exact .recorded hrun howner ⟨rfl, stampSet_of_unset hunset hearly, .inl rfl⟩

theorem recordFirstModelRequest_leaseOp (db : Database) (runId : RunId) (workerId : String)
    (observedAt : Option Time) (now : Time) :
    LeaseOp now db (db.after (recordFirstModelRequest db runId workerId observedAt now)) := by
  unfold recordFirstModelRequest
  refine .of_get .kept fun run hrun => ?_
  simp only
  split_ifs with hrecorded howner hearly
  · exact .kept
  · exact .kept
  · exact .kept
  · exact .recorded hrun (by simpa using howner) ⟨rfl, .inl rfl, .inl rfl⟩

theorem recordFirstOutput_leaseOp (db : Database) (runId : RunId) (workerId : String)
    (observedAt : Option Time) (now : Time) :
    LeaseOp now db (db.after (recordFirstOutput db runId workerId observedAt now)) := by
  unfold recordFirstOutput
  refine .of_get .kept fun run hrun => ?_
  split
  · exact .kept
  · rename_i hunset
    refine .of_required fun howner => ?_
    simp only
    split
    · exact .kept
    · rename_i hearly
      exact .recorded hrun howner ⟨rfl, .inl rfl, stampSet_of_unset hunset hearly⟩

theorem markRunning_leaseOp (db : Database) (runId : RunId) (workerId : String)
    (leaseSeconds : Int) (now : Time) :
    LeaseOp now db (db.after (markRunning db runId workerId leaseSeconds now)) := by
  unfold markRunning
  split_ifs with hworker hseconds
  · exact .kept
  · exact .kept
  · refine .of_get .kept fun run hrun => ?_
    simp only
    split_ifs with hdone hclaim howner
    · exact .kept
    · simp only [Bool.or_eq_true, not_or, Bool.not_eq_true] at hdone
      split
      · exact .kept
      · rename_i attempts hinsert
        exact .opened hrun (by omega) hdone.1 hdone.2 hclaim rfl hinsert
    · exact .continued hrun (by omega) howner
    · exact .kept

theorem renewLease_leaseOp (db : Database) (runId : RunId) (workerId : String)
    (leaseSeconds : Int) (now : Time) :
    LeaseOp now db (db.after (renewLease db runId workerId leaseSeconds now)) := by
  unfold renewLease
  split_ifs with hworker hseconds
  · exact .kept
  · exact .kept
  · refine .of_get .kept fun run hrun => ?_
    simp only
    split_ifs with howner
    · exact .renewed hrun (by omega) howner
    · exact .kept

theorem releaseLeaseForRetry_leaseOp (db : Database) (runId : RunId) (workerId : String)
    (now : Time) : LeaseOp now db (db.after (releaseLeaseForRetry db runId workerId now)) := by
  unfold releaseLeaseForRetry
  refine .of_get .kept fun run hrun => ?_
  split_ifs with howner
  · exact .released hrun howner
  · exact .kept

theorem OwnerStep.of_updateOpenAttempt {now : Time} {db db₁ : Database} {runId : RunId}
    {run run' : AgentRun} {workerId : Option String} {f : AgentRunAttempt → AgentRunAttempt}
    (hrun : db.runs.get runId = some run)
    (hruns : db₁.runs = (db.setRun runId run').runs) (hattempts : db₁.attempts = db.attempts)
    (hwrite : ∀ ledger', Ledger.UpdatesOpen workerId f (db.view runId).ledger ledger' →
      OwnerWrite now ⟨some run, (db.view runId).ledger⟩ ⟨some run', ledger'⟩) :
    OwnerStep now db (db₁.updateOpenAttempt runId workerId f) := by
  have hledger : (db₁.view runId).ledger = (db.view runId).ledger := by
    funext k
    simp [Database.view, hattempts]
  refine .of_run runId (fun j hj => ?_) ?_
  · simp only [Database.view, Database.updateOpenAttempt_runs, hruns,
      Database.get_setRun_of_ne db hj]
    congr 1
    funext k
    rw [Database.updateOpenAttempt_get_of_ne db₁ hj, hattempts]
  · have hview : (db₁.updateOpenAttempt runId workerId f).view runId =
        ⟨some run', ((db₁.updateOpenAttempt runId workerId f).view runId).ledger⟩ := by
      apply view_of_get
      rw [Database.updateOpenAttempt_runs, hruns, Database.get_setRun_self db hrun]
    rw [view_of_get hrun, hview]
    apply hwrite
    rw [← hledger]
    exact db₁.updateOpenAttempt_updatesOpen runId workerId f

/-- Closing attempts does not change their numbers. -/
theorem isMaxNo_closeAll {ledger : Ledger} {outcome : AttemptOutcome}
    {errorType errorMessage : Option String} {n : Nat} :
    (ledger.closeAll outcome errorType errorMessage now).IsMaxNo n ↔ ledger.IsMaxNo n := by
  have hsome : ∀ k, (∃ a, ledger.closeAll outcome errorType errorMessage now k = some a) ↔
      ∃ a, ledger k = some a := by
    intro k
    cases hk : ledger k <;> simp [Ledger.closeAll, hk]
  have hbound : (∀ k a, ledger.closeAll outcome errorType errorMessage now k = some a → k ≤ n) ↔
      ∀ k a, ledger k = some a → k ≤ n :=
    forall_congr' fun k => by rw [← exists_imp, hsome, exists_imp]
  simp only [Ledger.IsMaxNo, Option.isSome_iff_exists, hsome, hbound]

theorem LeaseOp.ownerStep (h : LeaseOp now db db') : OwnerStep now db db' := by
  cases h with
  | kept => exact .refl now db
  | recorded hrun howner hrecords => exact .of_records hrun howner hrecords
  | @opened runId run workerId leaseSeconds db₁ attempts hrun hseconds hlive hclean hclaim hclosed
      hinsert =>
      have hledger₁ : (db₁.view runId).ledger = (db.view runId).ledger.closeAll .leaseExpired
          (some "worker_lease_expired") (some "执行占有人在取得新所有权前已失联。") now := by
        funext k
        simp [hclosed, Database.closeOpenAttempts_get, Database.view]
      obtain ⟨-, hget⟩ := Table.get_of_insert hinsert
      refine .of_run runId (fun j hj => ?_) ?_
      · simp [Database.view, hget, hj, hclosed, Database.closeOpenAttempts_get]
      · have hview : Database.view { db₁ with attempts := attempts } runId =
            ⟨some (run.claimed workerId leaseSeconds now),
              Function.update (db₁.view runId).ledger (db₁.maxAttemptNo runId + 1)
                (some (.opened workerId (some (now + leaseSeconds)) now))⟩ := by
          simp only [Database.view, hget]
          congr 1
          · rw [hclosed, Database.closeOpenAttempts_runs, Database.get_setRun_self db hrun]
          · funext k
            by_cases hk : k = db₁.maxAttemptNo runId + 1
            · subst hk
              simp
            · simp [hk]
        rw [view_of_get hrun, hview, hledger₁]
        refine .opened hseconds hlive hclean hclaim ?_
        rw [← isMaxNo_closeAll, ← hledger₁]
        exact db₁.maxAttemptNo_isMaxNo runId
  | continued hrun hseconds howner =>
    exact .of_updateOpenAttempt hrun rfl rfl fun ledger' hledger' =>
      .continued hseconds howner hledger'
  | renewed hrun hseconds howner =>
    exact .of_updateOpenAttempt hrun rfl rfl fun ledger' hledger' =>
      .renewed hseconds howner hledger'
  | released hrun howner =>
    exact .of_updateOpenAttempt hrun rfl rfl fun ledger' hledger' =>
      .released howner hledger'

theorem setTerminalStatus_effect (db : Database) (runId : RunId) (status : RunStatus)
    (errorType errorMessage : Option String) (tokenUsage : Option JsonObject)
    (workerId : Option String) (now : Time) :
    OwnerStep now db (db.after
      (setTerminalStatus db runId status errorType errorMessage tokenUsage workerId now)) := by
  unfold setTerminalStatus
  split_ifs with hstatus
  · exact .refl now db
  · cases hrun : db.runs.get runId with
    | none => exact .refl now db
    | some run =>
      simp only
      split_ifs with hdone hleftover hguard houtput
      · refine .of_run runId (fun j hj => view_setRun_of_ne db hj _) ?_
        simp only [Database.after_ok]
        rw [view_of_get hrun, view_setRun_self hrun]
        exact .cleared hdone (by simpa [or_assoc] using hleftover)
      · exact .refl now db
      · exact .refl now db
      · exact .refl now db
      · refine @OwnerStep.of_updateOpenAttempt _ _ _ _ _ (run.terminated status errorType
            errorMessage tokenUsage now) _ _ hrun ?_ ?_ fun ledger' hledger' =>
          .terminated (by simpa using hstatus) (by simpa using hguard) hledger'
        · rw [Database.closeRunningAudits_runs, Database.projectInputDeliveryStatus_runs]
        · rw [Database.closeRunningAudits_attempts,
            Database.projectInputDeliveryStatus_attempts, Database.setRun_attempts]

/-! ## The effect of a creation -/

/-- What a successful insertion checked and did. -/
structure Created (db : Database) (args : CreateRun) (now : Time) (db' : Database) : Prop where
  shape : (args.row now).shapeOk
  freshRequest : ∀ {j run}, db.runs.get j = some run → run.requestId ≠ args.requestId
  freshId : db.runs.get args.runId = none
  runs : ∀ j, db'.runs.get j = if j = args.runId then some (args.row now) else db.runs.get j
  others : db' = { db with runs := db'.runs }

theorem createRun_eq_ok {args : CreateRun} (h : createRun db args now = .ok (run, db')) :
    run = args.row now ∧ Created db args now db' := by
  unfold createRun at h
  simp only at h
  split_ifs at h with hshape hrequest hactive
  cases hinsert : db.runs.insert args.runId (args.row now) with
  | none => simp [hinsert] at h
  | some runs =>
    simp only [hinsert, Except.ok.injEq, Prod.mk.injEq] at h
    obtain ⟨rfl, rfl⟩ := h
    obtain ⟨hfresh, hget⟩ := Table.get_of_insert hinsert
    refine ⟨rfl, by simpa using hshape, ?_, hfresh, hget, rfl⟩
    intro j run hrun heq
    apply hrequest
    rw [List.any_eq_true]
    refine ⟨(j, run), (db.runs.mem_rows_iff j run).mpr hrun, ?_⟩
    simpa [CreateRun.row] using heq

/-- Every view is kept or is the view of the run that was inserted. -/
theorem createRun_effect (db : Database) (args : CreateRun) (now : Time) (j : RunId) :
    (db.after (createRun db args now)).view j = db.view j ∨
      CreateWrite now (db.view j) ((db.after (createRun db args now)).view j) := by
  cases hcreate : createRun db args now with
  | error e => exact .inl rfl
  | ok result =>
    obtain ⟨run, db'⟩ := result
    obtain ⟨-, hcreated⟩ := createRun_eq_ok hcreate
    have hledger : (db'.view j).ledger = (db.view j).ledger := by
      rw [hcreated.others]
      rfl
    by_cases hj : j = args.runId
    · subst j
      right
      have hview : db.view args.runId = ⟨none, (db.view args.runId).ledger⟩ := by
        simp [Database.view, hcreated.freshId]
      have hview' : db'.view args.runId = ⟨some (args.row now), (db.view args.runId).ledger⟩ := by
        rw [← hledger]
        simp [Database.view, hcreated.runs]
      rw [Database.after_ok, hview, hview']
      exact .created hcreated.shape
    · left
      rw [Database.after_ok, Database.view, hcreated.others]
      simp [Database.view, hcreated.runs, hj]

/-! ## Effects of closing operations -/

/-- Every view is changed by closing writes only. -/
def Closes (db db' : Database) : Prop :=
  ∀ j, ReflTransGen ClosingWrite (db.view j) (db'.view j)

theorem Closes.refl (db : Database) : Closes db db :=
  fun _ => .refl

variable {db₁ db₂ : Database}

theorem Closes.trans (h₁ : Closes db db₁) (h₂ : Closes db₁ db₂) : Closes db db₂ :=
  fun j => (h₁ j).trans (h₂ j)

/-- Every view is changed by closing writes of the running service only. -/
def ServiceCloses (db db' : Database) : Prop :=
  ∀ j, ReflTransGen ServiceClosingWrite (db.view j) (db'.view j)

theorem ServiceCloses.refl (db : Database) : ServiceCloses db db :=
  fun _ => .refl

theorem ServiceCloses.trans (h₁ : ServiceCloses db db₁)
    (h₂ : ServiceCloses db₁ db₂) : ServiceCloses db db₂ :=
  fun j => (h₁ j).trans (h₂ j)

theorem ServiceCloses.closes (h : ServiceCloses db db') : Closes db db' :=
  fun j => ReflTransGen.mono (fun _ _ hwrite => hwrite.closing) _ _ (h j)

theorem ServiceCloses.of_run (runId : RunId) (hother : ∀ j, j ≠ runId → db'.view j = db.view j)
    (hself : ServiceClosingWrite (db.view runId) (db'.view runId)) :
    ServiceCloses db db' := by
  intro j
  by_cases hj : j = runId
  · subst j
    exact .single hself
  · rw [hother j hj]

theorem Closes.of_run (runId : RunId) (hother : ∀ j, j ≠ runId → db'.view j = db.view j)
    (hself : ClosingWrite (db.view runId) (db'.view runId)) : Closes db db' := by
  intro j
  by_cases hj : j = runId
  · subst j
    exact .single hself
  · rw [hother j hj]

variable (run' : AgentRun)

theorem view_closeOpenAttempts_self (hrun : db.runs.get runId = some run)
    (hruns : db₁.runs = (db.setRun runId run').runs)
    (hattempts : db₁.attempts = db.attempts) (outcome : AttemptOutcome)
    (errorType errorMessage : Option String) (now : Time) :
    (db₁.closeOpenAttempts runId outcome errorType errorMessage now).view runId =
      ⟨some run', (db.view runId).ledger.closeAll outcome errorType errorMessage now⟩ := by
  have hledger : (db₁.view runId).ledger = (db.view runId).ledger := by
    funext k
    simp [Database.view, hattempts]
  simp only [Database.view, Database.closeOpenAttempts_runs, hruns,
    Database.get_setRun_self db hrun]
  congr 1
  funext k
  rw [Database.closeOpenAttempts_get, if_pos rfl, hledger]
  rfl

theorem view_closeOpenAttempts_of_ne (hne : j ≠ runId)
    (hruns : db₁.runs = (db.setRun runId run').runs)
    (hattempts : db₁.attempts = db.attempts) (outcome : AttemptOutcome)
    (errorType errorMessage : Option String) (now : Time) :
    (db₁.closeOpenAttempts runId outcome errorType errorMessage now).view j = db.view j := by
  simp [Database.view, Database.closeOpenAttempts_get, hne, hruns, hattempts]

variable {childId : RunId}

theorem closeChild_view_of_ne (db : Database) (hne : j ≠ childId) (child : AgentRun) (now : Time) :
    (closeChild db childId child now).view j = db.view j := by
  unfold closeChild
  split
  · exact view_closeOpenAttempts_of_ne (child.treeCancelled now) hne (by simp) (by simp) _ _ _ _
  · exact view_setRun_of_ne db hne _

theorem closeChild_closes {child : AgentRun}
    (hchild : db.runs.get childId = some child) (hlive : child.status.isTerminal = false)
    (now : Time) : ServiceCloses db (closeChild db childId child now) := by
  refine .of_run childId (fun j hj => closeChild_view_of_ne db hj child now) ?_
  unfold closeChild
  split_ifs with hfresh
  · rw [view_of_get hchild, view_closeOpenAttempts_self (child.treeCancelled now) hchild
      (by simp) (by simp)]
    exact .treeCancelled hfresh
  · rw [view_of_get hchild, view_setRun_self hchild]
    exact .treeCancelAsked hlive

/-- A list of rows that agrees with the database: keys are distinct, every row is
current and none of them is terminal. -/
structure LiveRows (db : Database) (rows : List (RunId × AgentRun)) : Prop where
  nodup : (rows.map Prod.fst).Nodup
  current : ∀ e ∈ rows, db.runs.get e.1 = some e.2
  live : ∀ e ∈ rows, e.2.status.isTerminal = false

/-- A sorted selection of live rows agrees with the database it was read from. -/
theorem liveRows_of_query (db : Database) (p : RunId × AgentRun → Bool)
    (hp : ∀ e, p e → e.2.status.isTerminal = false) :
    LiveRows db ((db.runs.rows.filter p).insertionSort creationOrder) where
  nodup := by
    have hperm := List.perm_insertionSort creationOrder (db.runs.rows.filter p)
    refine ((hperm.map Prod.fst).nodup_iff).mpr ?_
    exact (List.filter_sublist.map Prod.fst).nodup db.runs.nodupKeys
  current := by
    intro e he
    have hmem := (List.mem_insertionSort creationOrder).mp he
    exact (db.runs.mem_rows_iff e.1 e.2).mp (List.mem_filter.mp hmem).1
  live := by
    intro e he
    have hmem := (List.mem_insertionSort creationOrder).mp he
    exact hp e (List.mem_filter.mp hmem).2

theorem LiveRows.tail {e : RunId × AgentRun} {rows : List (RunId × AgentRun)}
    (h : LiveRows db (e :: rows)) (hother : ∀ j, j ≠ e.1 → db'.view j = db.view j) :
    LiveRows db' rows where
  nodup := (List.nodup_cons.mp h.nodup).2
  current := by
    intro e' he'
    have hne : e'.1 ≠ e.1 := fun heq =>
      (List.nodup_cons.mp h.nodup).1 (heq ▸ List.mem_map_of_mem (f := Prod.fst) he')
    rw [← h.current e' (List.mem_cons_of_mem _ he')]
    exact congrArg RunView.run (hother e'.1 hne)
  live := fun e' he' => h.live e' (List.mem_cons_of_mem _ he')

theorem activeChildren_liveRows (db : Database) (root : TreeRoot) (parentIds : List RunId) :
    LiveRows db (activeChildren db root parentIds) :=
  liveRows_of_query db (fun e => inTree root parentIds e.1 e.2) fun e he => by
    simp only [inTree, Bool.and_eq_true, Bool.not_eq_true'] at he
    exact he.2

/-- The write of the reconciliation to the run itself. -/
def leaseLostWrite (db : Database) (runId : RunId) (run : AgentRun) (now : Time) : Database :=
  (((db.setRun runId (run.leaseLost now)).projectInputDeliveryStatus
    (run.leaseLost now)).closeRunningAudits runId .abandoned now false).closeOpenAttempts runId
      .leaseExpired (some "worker_lease_expired")
      (some "执行 worker 的 lease 已过期；本次运行结果未知。") now

/-- A relation that holds across every single write of the closing operations. -/
structure ClosingRel (R : Database → Database → Prop) : Prop where
  refl : ∀ db, R db db
  trans : ∀ {a b c}, R a b → R b c → R a c
  child : ∀ {db childId child}, db.runs.get childId = some child →
    child.status.isTerminal = false → ∀ now, R db (closeChild db childId child now)
  locked : ∀ {db runId run}, db.runs.get runId = some run →
    ∀ now, R db (requestCancelLocked db runId run now)
  leaseLost : ∀ {db runId run}, db.runs.get runId = some run → run.status.isTerminal = false →
    ∀ now, R db (leaseLostWrite db runId run now)

section

variable {R : Database → Database → Prop}

section

variable (h : ClosingRel R)
include h

/-- The inner loop of the walk closes rows one by one. -/
theorem ClosingRel.treeVisit_foldl (now : Time) (rows : List (RunId × AgentRun))
    (st : TreeState) (hrows : LiveRows st.db rows) :
    R st.db (rows.foldl (treeVisit now) st).db := by
  induction rows generalizing st with
  | nil => exact h.refl st.db
  | cons e rows ih =>
    rw [List.foldl_cons]
    by_cases hseen : st.seenIds.contains e.1
    · have hstay : treeVisit now st e = st := by rw [treeVisit, if_pos hseen]
      rw [hstay]
      exact ih st (hrows.tail fun _ _ => rfl)
    · have hdb : (treeVisit now st e).db = closeChild st.db e.1 e.2 now := by
        rw [treeVisit, if_neg hseen]
      have hclose : R st.db (treeVisit now st e).db := by
        rw [hdb]
        exact h.child (hrows.current e List.mem_cons_self) (hrows.live e List.mem_cons_self) now
      refine h.trans hclose (ih _ (hrows.tail fun j hj => ?_))
      rw [hdb]
      exact closeChild_view_of_ne st.db hj e.2 now

theorem ClosingRel.treeLoop (root : TreeRoot) (now : Time) (fuel : Nat)
    (st : TreeState) : R st.db (treeLoop root now fuel st).db := by
  induction fuel generalizing st with
  | zero => exact h.refl st.db
  | succ fuel ih =>
    rw [AgentRunRepository.treeLoop]
    split
    · exact h.refl st.db
    · refine h.trans ?_ (ih (treeRound root now st))
      exact h.treeVisit_foldl now _ { st with pendingParentIds := [] }
        (activeChildren_liveRows st.db root st.pendingParentIds)

theorem ClosingRel.cancelDescendants (db : Database) (rootId : RunId)
    (root : AgentRun) (now : Time) :
    R db (cancelActiveExecutionTreeDescendants db rootId root now).2 := by
  unfold cancelActiveExecutionTreeDescendants
  split
  · exact h.refl db
  · exact h.treeLoop _ now _ (treeStart db rootId)

theorem ClosingRel.requestCancel (db : Database) (runId : RunId) (uid : String)
    (cascadeDescendants : Bool) (now treeNow : Time) :
    R db (requestCancelExecutionTree db runId uid cascadeDescendants now treeNow).2.2 := by
  unfold requestCancelExecutionTree
  split
  · exact h.refl db
  · rename_i run hfound
    have hlocked := h.locked (Option.filter_eq_some_iff.mp hfound).1 now
    split
    · exact h.trans hlocked (h.cancelDescendants _ runId run treeNow)
    · exact hlocked

theorem ClosingRel.reconcileVisit (now : Time) (treeNow : RunId → Time)
    (st : ReconcileState) (runId : RunId) : R st.db (reconcileVisit now treeNow st runId).db := by
  unfold AgentRunRepository.reconcileVisit
  cases hrun : st.db.runs.get runId with
  | none => exact h.refl st.db
  | some run =>
    simp only
    split_ifs with hdone
    · exact h.refl st.db
    · exact h.trans (h.leaseLost hrun (by simpa using hdone) now) (h.cancelDescendants _ runId _ _)

theorem ClosingRel.reconcile (db : Database) (scan : List RunId) (now : Time)
    (treeNow : RunId → Time) : R db (reconcileExpiredLeases db scan now treeNow).db :=
  Transition.exec_rel (AgentRunRepository.reconcileVisit now treeNow)
    (R := fun st st' => R st.db st'.db) (fun st => h.refl st.db) h.trans
    (h.reconcileVisit now treeNow)
    { db := db, reconciledRuns := [], cancelledDescendants := [] } (reconcileOrder db scan now)

end

theorem migrateVisit_view_of_ne (now : Time) (db : Database) (e : RunId × AgentRun)
    (hne : j ≠ e.1) : (migrateVisit now db e).view j = db.view j :=
  view_closeOpenAttempts_of_ne (e.2.storageMigrated now) hne (by simp) (by simp) _ _ _ _

theorem failNonterminalForStorageMigration_rel (hrefl : ∀ db, R db db)
    (htrans : ∀ {a b c}, R a b → R b c → R a c) (now : Time)
    (h : ∀ {db : Database} {e : RunId × AgentRun}, db.runs.get e.1 = some e.2 →
      e.2.status.isTerminal = false → R db (migrateVisit now db e)) (db : Database) :
    R db (failNonterminalForStorageMigration db now).2 := by
  have hgo : ∀ rows db, LiveRows db rows → R db (rows.foldl (migrateVisit now) db) := by
    intro rows
    induction rows with
    | nil => exact fun db _ => hrefl db
    | cons e rows ih =>
      intro db hrows
      exact htrans (h (hrows.current e List.mem_cons_self) (hrows.live e List.mem_cons_self))
        (ih _ (hrows.tail fun j hj => migrateVisit_view_of_ne now db e hj))
  exact hgo _ db (liveRows_of_query db _ fun e he => by simpa using he)

end

theorem requestCancelLocked_closes (hrun : db.runs.get runId = some run) (now : Time) :
    ServiceCloses db (requestCancelLocked db runId run now) := by
  unfold requestCancelLocked
  split_ifs with hdone hfresh
  · exact .refl db
  · have hview : ∀ j, ((db.setRun runId (run.cancelledBeforeStart now)).projectInputDeliveryStatus
        (run.cancelledBeforeStart now)).view j =
          (db.setRun runId (run.cancelledBeforeStart now)).view j := fun j =>
      Database.view_congr (by simp) (by simp) j
    refine .of_run runId (fun j hj => (hview j).trans (view_setRun_of_ne db hj _)) ?_
    rw [hview, view_of_get hrun, view_setRun_self hrun]
    exact .cancelledBeforeStart hfresh
  · refine .of_run runId (fun j hj => view_setRun_of_ne db hj _) ?_
    rw [view_of_get hrun, view_setRun_self hrun]
    exact .cancelAsked (by simpa using hdone)

theorem leaseLostWrite_closes (hrun : db.runs.get runId = some run)
    (hlive : run.status.isTerminal = false) (now : Time) :
    ServiceCloses db (leaseLostWrite db runId run now) := by
  refine .of_run runId (fun j hj => ?_) ?_
  · exact view_closeOpenAttempts_of_ne (run.leaseLost now) hj (by simp) (by simp) _ _ _ _
  · rw [view_of_get hrun, leaseLostWrite, view_closeOpenAttempts_self (run.leaseLost now) hrun
      (by simp) (by simp)]
    exact .leaseLost hlive

theorem closingRel_serviceCloses : ClosingRel ServiceCloses :=
  ⟨.refl, .trans, closeChild_closes, requestCancelLocked_closes, leaseLostWrite_closes⟩

theorem failNonterminalForStorageMigration_closes (db : Database) (now : Time) :
    Closes db (failNonterminalForStorageMigration db now).2 := by
  refine failNonterminalForStorageMigration_rel .refl .trans now (fun {db e} hrun hlive => ?_) db
  refine .of_run e.1 (fun j hj => migrateVisit_view_of_ne now db e hj) ?_
  rw [view_of_get hrun, migrateVisit, view_closeOpenAttempts_self (e.2.storageMigrated now) hrun
    (by simp) (by simp)]
  exact .storageMigrated hlive

/-! ## The transition system -/

/-- The tables outside runs and attempts, as other services may leave them. -/
structure OtherTables where
  scopes : Table RunId String
  messages : Table Nat Message
  toolCalls : Table Nat ToolCall
  conversations : Table String Conversation
  projects : Table String Project
  subagentThreads : Table RelationId SubagentThread
  requests : Table String AgentRunRequest

/-- An operation with its arguments.  `others` stands for any transaction of
another service on the remaining tables. -/
inductive Op where
  | createRun (args : CreateRun)
  | markRunning (runId : RunId) (workerId : String) (leaseSeconds : Int)
  | renewLease (runId : RunId) (workerId : String) (leaseSeconds : Int)
  | releaseLeaseForRetry (runId : RunId) (workerId : String)
  | setLangfuseTraceId (runId : RunId) (traceId workerId : String)
  | setOutputMessage (runId : RunId) (messageId : Nat) (workerId : String)
  | recordRunManifest (runId : RunId) (manifest : JsonObject) (fingerprint workerId : String)
  | recordPrepared (runId : RunId) (workerId : String) (observedAt : Option Time)
  | recordFirstModelRequest (runId : RunId) (workerId : String) (observedAt : Option Time)
  | recordFirstOutput (runId : RunId) (workerId : String) (observedAt : Option Time)
  | setTerminalStatus (runId : RunId) (status : RunStatus) (errorType errorMessage : Option String)
      (tokenUsage : Option JsonObject) (workerId : Option String)
  | requestCancelExecutionTree (runId : RunId) (uid : String) (cascadeDescendants : Bool)
      (treeNow : Time)
  | cancelActiveExecutionTreeDescendants (rootId : RunId) (root : AgentRun)
  | reconcileExpiredLeases (scan : List RunId) (treeNow : RunId → Time)
  | failNonterminalForStorageMigration
  | others (tables : OtherTables)

/-- An operation together with the clock reading it takes. -/
structure Event where
  now : Time
  op : Op

/-- The database after one operation has committed or was rolled back. -/
def step (db : Database) (e : Event) : Database :=
  match e.op with
  | .createRun args => db.after (createRun db args e.now)
  | .markRunning runId workerId leaseSeconds =>
    db.after (markRunning db runId workerId leaseSeconds e.now)
  | .renewLease runId workerId leaseSeconds =>
    db.after (renewLease db runId workerId leaseSeconds e.now)
  | .releaseLeaseForRetry runId workerId =>
    db.after (releaseLeaseForRetry db runId workerId e.now)
  | .setLangfuseTraceId runId traceId workerId =>
    db.after (setLangfuseTraceId db runId traceId workerId e.now)
  | .setOutputMessage runId messageId workerId =>
    db.after (setOutputMessage db runId messageId workerId e.now)
  | .recordRunManifest runId manifest fingerprint workerId =>
    db.after (recordRunManifest db runId manifest fingerprint workerId e.now)
  | .recordPrepared runId workerId observedAt =>
    db.after (recordPrepared db runId workerId observedAt e.now)
  | .recordFirstModelRequest runId workerId observedAt =>
    db.after (recordFirstModelRequest db runId workerId observedAt e.now)
  | .recordFirstOutput runId workerId observedAt =>
    db.after (recordFirstOutput db runId workerId observedAt e.now)
  | .setTerminalStatus runId status errorType errorMessage tokenUsage workerId =>
    db.after (setTerminalStatus db runId status errorType errorMessage tokenUsage workerId e.now)
  | .requestCancelExecutionTree runId uid cascadeDescendants treeNow =>
    (requestCancelExecutionTree db runId uid cascadeDescendants e.now treeNow).2.2
  | .cancelActiveExecutionTreeDescendants rootId root =>
    (cancelActiveExecutionTreeDescendants db rootId root e.now).2
  | .reconcileExpiredLeases scan treeNow => (reconcileExpiredLeases db scan e.now treeNow).db
  | .failNonterminalForStorageMigration => (failNonterminalForStorageMigration db e.now).2
  | .others tables =>
    { runs := db.runs
      attempts := db.attempts
      scopes := tables.scopes
      messages := tables.messages
      toolCalls := tables.toolCalls
      conversations := tables.conversations
      projects := tables.projects
      subagentThreads := tables.subagentThreads
      requests := tables.requests }

/-- The operations on existing runs. -/
def Op.isExecution : Op → Bool
  | .createRun _ => false
  | .others _ => false
  | _ => true

/-- What an operation on existing runs can do to a view. -/
def ExecutionEffect (now : Time) (v v' : RunView) : Prop :=
  OwnerWrite now v v' ∨ ReflTransGen ClosingWrite v v'

/-- What one operation at the given clock reading can do to a view. -/
def Effect (now : Time) (v v' : RunView) : Prop :=
  CreateWrite now v v' ∨ ExecutionEffect now v v'

theorem OwnerStep.effect (h : OwnerStep now db db')
    (j : RunId) : ExecutionEffect now (db.view j) (db'.view j) := by
  rcases h j with hsame | hwrite
  · rw [hsame]
    exact .inr .refl
  · exact .inl hwrite

/-- An operation that a caller makes to the run it names. -/
def Op.isOwner : Op → Bool
  | .markRunning .. | .renewLease .. | .releaseLeaseForRetry .. | .setLangfuseTraceId ..
  | .setOutputMessage .. | .recordRunManifest .. | .recordPrepared ..
  | .recordFirstModelRequest .. | .recordFirstOutput .. | .setTerminalStatus .. => true
  | _ => false

/-- An operation that ends runs, or asks them to end, while the service is running. -/
def Op.isServiceClosing : Op → Bool
  | .requestCancelExecutionTree .. | .cancelActiveExecutionTreeDescendants ..
  | .reconcileExpiredLeases .. => true
  | _ => false

/-- An operation of a caller ends the run or writes its lease or its columns. -/
theorem owner_cases (db : Database) (e : Event) (howner : e.op.isOwner) :
    LeaseOp e.now db (step db e) ∨ ∃ runId status errorType errorMessage tokenUsage workerId,
        e.op = .setTerminalStatus runId status errorType errorMessage tokenUsage workerId := by
  obtain ⟨now, op⟩ := e
  cases op with
  | markRunning runId workerId leaseSeconds =>
    exact .inl (markRunning_leaseOp db runId workerId leaseSeconds now)
  | renewLease runId workerId leaseSeconds =>
    exact .inl (renewLease_leaseOp db runId workerId leaseSeconds now)
  | releaseLeaseForRetry runId workerId =>
    exact .inl (releaseLeaseForRetry_leaseOp db runId workerId now)
  | setLangfuseTraceId runId traceId workerId =>
    exact .inl (setLangfuseTraceId_leaseOp db runId traceId workerId now)
  | setOutputMessage runId messageId workerId =>
    exact .inl (setOutputMessage_leaseOp db runId messageId workerId now)
  | recordRunManifest runId manifest fingerprint workerId =>
    exact .inl (recordRunManifest_leaseOp db runId manifest fingerprint workerId now)
  | recordPrepared runId workerId observedAt =>
    exact .inl (recordPrepared_leaseOp db runId workerId observedAt now)
  | recordFirstModelRequest runId workerId observedAt =>
    exact .inl (recordFirstModelRequest_leaseOp db runId workerId observedAt now)
  | recordFirstOutput runId workerId observedAt =>
    exact .inl (recordFirstOutput_leaseOp db runId workerId observedAt now)
  | setTerminalStatus runId status errorType errorMessage tokenUsage workerId =>
    exact .inr ⟨runId, status, errorType, errorMessage, tokenUsage, workerId, rfl⟩
  | _ => cases howner

theorem owner_effect (db : Database) (e : Event) (howner : e.op.isOwner) :
    OwnerStep e.now db (step db e) := by
  rcases owner_cases db e howner with hlease | ⟨runId, status, errorType, errorMessage, usage, w, hop⟩
  · exact hlease.ownerStep
  · obtain ⟨now, op⟩ := e
    cases hop
    exact setTerminalStatus_effect db runId status errorType errorMessage usage w now

theorem service_effect (db : Database) (e : Event) (hservice : e.op.isServiceClosing) :
    ServiceCloses db (step db e) := by
  obtain ⟨now, op⟩ := e
  cases op with
  | requestCancelExecutionTree runId uid cascadeDescendants treeNow =>
    exact closingRel_serviceCloses.requestCancel db runId uid cascadeDescendants now treeNow
  | cancelActiveExecutionTreeDescendants rootId root =>
    exact closingRel_serviceCloses.cancelDescendants db rootId root now
  | reconcileExpiredLeases scan treeNow => exact closingRel_serviceCloses.reconcile db scan now treeNow
  | _ => cases hservice

/-- An operation on existing runs changes a view by one owner write or by closing writes. -/
theorem execution_effect (db : Database) (e : Event) (hexec : e.op.isExecution) (j : RunId) :
    ExecutionEffect e.now (db.view j) ((step db e).view j) := by
  by_cases howner : e.op.isOwner
  · exact (owner_effect db e howner).effect j
  · by_cases hservice : e.op.isServiceClosing
    · exact .inr ((service_effect db e hservice).closes j)
    · obtain ⟨now, op⟩ := e
      cases op with
      | failNonterminalForStorageMigration =>
        exact .inr (failNonterminalForStorageMigration_closes db now j)
      | createRun args => cases hexec
      | others tables => cases hexec
      | _ => first | exact absurd rfl howner | exact absurd rfl hservice

/-- Every operation inserts a run, or changes its view by one owner write or by closing
writes. -/
theorem step_effect (db : Database) (e : Event) (j : RunId) :
    Effect e.now (db.view j) ((step db e).view j) := by
  obtain ⟨now, op⟩ := e
  cases hexec : op.isExecution with
  | true => exact .inr (execution_effect db ⟨now, op⟩ hexec j)
  | false =>
    cases op with
    | createRun args =>
      rcases createRun_effect db args now j with hsame | hwrite
      · right
        right
        show ReflTransGen ClosingWrite (db.view j) ((db.after (createRun db args now)).view j)
        rw [hsame]
      · exact .inl hwrite
    | others tables => exact .inr (.inr .refl)
    | _ => cases hexec

end Yuanlei.AgentRunRepository
