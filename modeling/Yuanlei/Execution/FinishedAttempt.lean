import Yuanlei.AgentRun.Ledger
import Yuanlei.Execution.Worker

/-!
# The worker that finished a run

A worker whose result may have been committed by somebody else asks
`_run_attempt_finished`, which reads the answer off the run row and its last
attempt.  Without the storage migration, an attempt carries the word of a run status
only when the owner's `set_terminal_status` ended it: attempts that are released, lost
or taken over carry other words, and a run cancelled before its start has no attempt.

Main results:

- `runAttemptFinished`: the test of the worker.
- `runAttemptFinished_iff_committed`: the answer after every history.
-/

namespace Yuanlei

open Relation

/-- The text of the column `agent_run_attempts.outcome`. -/
def AttemptOutcome.text : AttemptOutcome → String
  | .completed => "completed"
  | .failed => "failed"
  | .cancelled => "cancelled"
  | .interrupted => "interrupted"
  | .retryReleased => "retry_released"
  | .leaseExpired => "lease_expired"

namespace AgentRunRepository

/-! ## The test of the worker -/

/-- `list_run_attempts`: the attempts of a run by their numbers. -/
def listRunAttempts (db : Database) (runId : RunId) : List ((RunId × Nat) × AgentRunAttempt) :=
  (db.attempts.rows.filter fun e => e.1.1 = runId).insertionSort fun a b => a.1.2 ≤ b.1.2

def runAttemptFinished (db : Database) (runId : RunId) (workerId : String) : Bool :=
  match db.runs.get runId with
  | none => false
  | some run =>
    if !run.status.isTerminal then false
    else
      match (listRunAttempts db runId).getLast? with
      | none => false
      | some (_, attempt) =>
        attempt.workerId == workerId &&
          attempt.outcome.map AttemptOutcome.text == some run.status.text &&
          attempt.finishedAt.isSome && attempt.finishedAt == run.finishedAt

/-- The result of `set_terminal_status` reports a committed terminal status. -/
def isCommitted (result : Transaction String (Option AgentRun × Bool)) : Bool :=
  match result with
  | .ok ((_, changed), _) => changed
  | .error _ => false

/-- The argument `worker_id` of the operation, when it is a `set_terminal_status` that
commits the terminal status of the run. -/
def terminalCommit (db : Database) (e : Event) (runId : RunId) : Option (Option String) :=
  match e.op with
  | .setTerminalStatus id status errorType errorMessage tokenUsage workerId =>
    if id = runId ∧ isCommitted
        (setTerminalStatus db id status errorType errorMessage tokenUsage workerId e.now) then
      some workerId
    else none
  | _ => none

/-- The operation is `fail_nonterminal_for_storage_migration`. -/
def Op.isStorageMigration : Op → Bool
  | .failNonterminalForStorageMigration => true
  | _ => false

/-! ## The last attempt -/

variable {db : Database} {runId : RunId}

theorem mem_listRunAttempts {e : (RunId × Nat) × AgentRunAttempt} : e ∈ listRunAttempts db runId ↔
      e.1.1 = runId ∧ (db.view runId).ledger e.1.2 = some e.2 := by
  obtain ⟨⟨id, k⟩, a⟩ := e
  have hrow := db.attempts.mem_rows_iff (id, k) a
  rw [listRunAttempts, List.mem_insertionSort, List.mem_filter, hrow]
  simp only [decide_eq_true_eq, Database.view_ledger]
  constructor
  · rintro ⟨hget, rfl⟩
    exact ⟨rfl, hget⟩
  · rintro ⟨rfl, hget⟩
    exact ⟨hget, rfl⟩

variable {run : AgentRun} {n : Nat}

theorem listRunAttempts_getLast? (h : LedgerInv run (db.view runId).ledger n) :
    (listRunAttempts db runId).getLast?.map Prod.snd = (db.view runId).ledger n := by
  cases hlast : (listRunAttempts db runId).getLast? with
  | none =>
    have hempty := List.getLast?_eq_none_iff.mp hlast
    cases hget : (db.view runId).ledger n with
    | none => rfl
    | some a =>
      have hmem : ((runId, n), a) ∈ listRunAttempts db runId :=
        mem_listRunAttempts.mpr ⟨rfl, hget⟩
      rw [hempty] at hmem
      cases hmem
  | some e =>
    obtain ⟨front, hlist⟩ := List.getLast?_eq_some_iff.mp hlast
    have hmem : e ∈ listRunAttempts db runId := by simp [hlist]
    obtain ⟨hid, hget⟩ := mem_listRunAttempts.mp hmem
    have hbound := (h.numbers e.1.2).mp (by rw [hget]; rfl)
    obtain ⟨a, ha⟩ := Option.isSome_iff_exists.mp ((h.numbers n).mpr ⟨by omega, le_rfl⟩)
    have hmax : n ≤ e.1.2 := by
      have hsorted : (listRunAttempts db runId).Pairwise fun a b => a.1.2 ≤ b.1.2 :=
        List.pairwise_insertionSort _ _
      have hn : ((runId, n), a) ∈ listRunAttempts db runId :=
        mem_listRunAttempts.mpr ⟨rfl, ha⟩
      rw [hlist] at hsorted hn
      rcases List.mem_append.mp hn with hfront | hself
      · exact (List.pairwise_append.mp hsorted).2.2 _ hfront e (by simp)
      · rw [List.mem_singleton] at hself
        rw [← hself]
    have hn : e.1.2 = n := le_antisymm hbound.2 hmax
    rw [Option.map_some, ← hn, hget]

theorem runAttemptFinished_iff (hrun : db.runs.get runId = some run)
    (h : LedgerInv run (db.view runId).ledger n)
    (workerId : String) :
    runAttemptFinished db runId workerId = true ↔
      run.status.isTerminal ∧ ∃ a, (db.view runId).ledger n = some a ∧ a.workerId = workerId ∧
        a.outcome.map AttemptOutcome.text = some run.status.text ∧ a.finishedAt ≠ none ∧
        a.finishedAt = run.finishedAt := by
  have hlast := listRunAttempts_getLast? h
  rw [← hlast]
  cases hterminal : run.status.isTerminal with
  | false => simp [runAttemptFinished, hrun, hterminal]
  | true =>
    cases hget : (listRunAttempts db runId).getLast? with
    | none => simp [runAttemptFinished, hrun, hterminal, hget]
    | some e =>
      simp [runAttemptFinished, hrun, hterminal, hget, Option.isSome_iff_ne_none, and_assoc]

/-! ## Runs that no owner has finished -/

/-- The attempt was given back or lost. -/
def Abandoned (a : AgentRunAttempt) : Prop :=
  a.outcome = some .retryReleased ∨ a.outcome = some .leaseExpired

/-- A run that was never started has no attempt, and every closed attempt was given back
or lost. -/
structure Unfinished (v : RunView) : Prop where
  fresh : ∀ run, v.run = some run → run.startedAt = none → ∀ k, v.ledger k = none
  closed : ∀ k a, v.ledger k = some a → a.finishedAt ≠ none → Abandoned a

variable {v : RunView}

theorem Unfinished.of_empty (h : ∀ k, v.ledger k = none) : Unfinished v where
  fresh := fun _ _ _ => h
  closed := by
    intro k a ha
    rw [h k] at ha
    cases ha

/-- Without an attempt that carries the word of a status nobody is recognised. -/
theorem Unfinished.not_finished (hviews : ViewInv (db.view runId))
    (h : Unfinished (db.view runId)) (workerId : String) :
    runAttemptFinished db runId workerId = false := by
  cases hrun : db.runs.get runId with
  | none => simp [runAttemptFinished, hrun]
  | some run =>
    obtain ⟨n, hn⟩ := hviews.2 run hrun
    rw [← Bool.not_eq_true, runAttemptFinished_iff hrun hn]
    rintro ⟨-, a, ha, -, hword, hclosed, -⟩
    have habandoned := h.closed n a ha hclosed
    rcases habandoned with hw | hw <;> rw [hw] at hword <;> cases hstatus : run.status <;>
      simp [hstatus, AttemptOutcome.text, RunStatus.text] at hword

variable {now : Time} {ledger : Ledger} {errorType errorMessage : Option String}

/-- Closing the open attempts with one of the two words keeps the condition on closed ones. -/
theorem closeAll_abandoned {outcome : AttemptOutcome}
    (hword : outcome = .retryReleased ∨ outcome = .leaseExpired)
    (h : ∀ k a, ledger k = some a → a.finishedAt ≠ none → Abandoned a) :
    ∀ k a, ledger.closeAll outcome errorType errorMessage now k = some a →
      a.finishedAt ≠ none → Abandoned a := by
  intro k a ha hclosed
  obtain ⟨a₀, ha₀, rfl⟩ := Option.map_eq_some_iff.mp ha
  by_cases hopen : a₀.finishedAt = none
  · rw [if_pos hopen]
    rcases hword with rfl | rfl
    · exact .inl rfl
    · exact .inr rfl
  · rw [if_neg hopen]
    exact h k a₀ ha₀ hopen

variable {workerId : Option String}

theorem updatesOpen_abandoned {f : AgentRunAttempt → AgentRunAttempt} {ledger' : Ledger}
    (hupdate : Ledger.UpdatesOpen workerId f ledger ledger')
    (hf : ∀ a, a.finishedAt = none → (f a).finishedAt ≠ none → Abandoned (f a))
    (h : ∀ k a, ledger k = some a → a.finishedAt ≠ none → Abandoned a) :
    ∀ k a, ledger' k = some a → a.finishedAt ≠ none → Abandoned a := by
  cases hupdate with
  | absent hnone => exact h
  | @latest j hopen hmax =>
    obtain ⟨b, hb, hfinished, -⟩ := hopen
    intro k a ha hclosed
    by_cases hk : k = j
    · subst hk
      simp only [Function.update_self, hb, Option.map_some, Option.some.injEq] at ha
      subst ha
      exact hf b hfinished hclosed
    · rw [Function.update_of_ne hk] at ha
      exact h k a ha hclosed

variable {v' : RunView}

theorem createWrite_unfinished (h : CreateWrite now v v') (hv : ViewInv v) : Unfinished v' := by
  cases h with
  | created hshape =>
    exact .of_empty (hv.1 rfl)

theorem serviceClosingWrite_unfinished (h : ServiceClosingWrite v v')
    (hv : Unfinished v) : Unfinished v' := by
  cases h with
  | @cancelledBeforeStart run ledger now hfresh =>
    refine ⟨?_, hv.closed⟩
    rintro run' ⟨⟩ hstarted
    exact hv.fresh run rfl hstarted
  | @cancelAsked run ledger now hlive =>
    refine ⟨?_, hv.closed⟩
    rintro run' ⟨⟩ hstarted
    exact hv.fresh run rfl hstarted
  | @treeCancelled run ledger now hfresh =>
    -- The outcome written here is the word of a status, but there is nothing to close.
    have hstarted : run.startedAt = none := by
      simp only [AgentRun.notStarted, Bool.and_eq_true, Option.isNone_iff_eq_none] at hfresh
      exact hfresh.2
    have hempty := hv.fresh run rfl hstarted
    refine .of_empty fun k => ?_
    have hk : ledger k = none := hempty k
    simp [Ledger.closeAll, hk]
  | @treeCancelAsked run ledger now hlive =>
    refine ⟨?_, hv.closed⟩
    rintro run' ⟨⟩ hstarted
    exact hv.fresh run rfl hstarted
  | @leaseLost run ledger now hlive =>
    refine ⟨?_, closeAll_abandoned (.inr rfl) hv.closed⟩
    rintro run' ⟨⟩ hstarted k
    have hk : ledger k = none := hv.fresh run rfl hstarted k
    simp [Ledger.closeAll, hk]

theorem serviceClosing_unfinished (h : ReflTransGen ServiceClosingWrite v v')
    (hv : Unfinished v) : Unfinished v' := by
  induction h with
  | refl => exact hv
  | tail _ hlast ih => exact serviceClosingWrite_unfinished hlast ih

theorem ownerWrite_unfinished (h : OwnerWrite now v v') (hinv : ViewInv v)
    (hlive : ∀ run', v'.run = some run' → run'.status.isTerminal →
      ∃ run, v.run = some run ∧ run.status.isTerminal)
    (hv : Unfinished v) : Unfinished v' := by
  have hbeat : ∀ (lease : Option Time) (a : AgentRunAttempt), a.finishedAt = none →
      (a.heartbeat lease now).finishedAt ≠ none → Abandoned (a.heartbeat lease now) :=
    fun _ _ hopen hclosed => absurd hopen hclosed
  have hkept : ∀ {workerId f ledger ledger'}, Ledger.UpdatesOpen workerId f ledger ledger' →
      (∀ k, ledger k = none) → ∀ k, ledger' k = none := by
    intro workerId f ledger ledger' hupdate hempty k
    cases hupdate with
    | latest hopen hmax =>
      obtain ⟨b, hb, -⟩ := hopen
      rw [hempty] at hb
      cases hb
    | absent hnone => exact hempty k
  cases h with
  | @opened run ledger w seconds m hseconds hrun hclean hclaim hmax =>
    refine ⟨?_, ?_⟩
    · rintro run' ⟨⟩ hstarted
      cases hstarted
    · intro k a ha hclosed
      by_cases hk : k = m + 1
      · subst hk
        simp only [Function.update_self, Option.some.injEq] at ha
        subst ha
        exact absurd rfl hclosed
      · simp only [Function.update_of_ne hk] at ha
        exact closeAll_abandoned (.inr rfl) hv.closed k a ha hclosed
  | @continued run ledger ledger' w seconds hseconds howner hledger =>
    refine ⟨?_, updatesOpen_abandoned hledger (hbeat _) hv.closed⟩
    rintro run' ⟨⟩ hstarted
    cases hstarted
  | @renewed run ledger ledger' w seconds hseconds howner hledger =>
    refine ⟨?_, updatesOpen_abandoned hledger (hbeat _) hv.closed⟩
    rintro run' ⟨⟩ hstarted
    exact hkept hledger (hv.fresh run rfl hstarted)
  | @released run ledger ledger' w howner hledger =>
    refine ⟨?_, updatesOpen_abandoned hledger (fun _ _ _ => .inl rfl) hv.closed⟩
    rintro run' ⟨⟩ hstarted
    exact hkept hledger (hv.fresh run rfl hstarted)
  | @terminated run ledger ledger' status errorType errorMessage usage w hterminal hguard hledger =>
      obtain ⟨run₀, hrun₀, hdone⟩ := hlive _ rfl hterminal
      obtain rfl : run = run₀ := Option.some.inj hrun₀
      rw [(terminalGuard_moves hterminal hguard).1] at hdone
      cases hdone
  | @cleared run ledger hterminal hleftover =>
    refine ⟨?_, hv.closed⟩
    rintro run' ⟨⟩ hstarted
    exact hv.fresh run rfl hstarted
  | @recorded run run' ledger w howner hrecords =>
    refine ⟨?_, hv.closed⟩
    rintro run'' ⟨⟩ hstarted
    rw [hrecords.same] at hstarted
    exact hv.fresh run rfl hstarted

/-! ## Operations that finish no run -/

/-- The run was finished in the first database when it is finished in the second. -/
def FinishesNone (db db' : Database) (j : RunId) : Prop :=
  ∀ run', db'.runs.get j = some run' → run'.status.isTerminal →
    ∃ run, db.runs.get j = some run ∧ run.status.isTerminal

theorem FinishesNone.refl (db : Database) (j : RunId) : FinishesNone db db j :=
  fun run' hrun' hterminal => ⟨run', hrun', hterminal⟩

variable {db' : Database} {j : RunId} {run' : AgentRun}

theorem FinishesNone.of_setRun (hrun : db.runs.get runId = some run)
    (hruns : db'.runs = (db.setRun runId run').runs)
    (hstatus : j = runId → run'.status.isTerminal → run.status.isTerminal) :
    FinishesNone db db' j := by
  intro row hrow hterminal
  rw [hruns] at hrow
  by_cases hj : j = runId
  · subst hj
    rw [Database.get_setRun_self db hrun, Option.some.injEq] at hrow
    subst hrow
    exact ⟨run, hrun, hstatus rfl hterminal⟩
  · rw [Database.get_setRun_of_ne db hj] at hrow
    exact ⟨row, hrow, hterminal⟩

theorem FinishesNone.of_record (hrun : db.runs.get runId = some run)
    (hstatus : run'.status = run.status) :
    FinishesNone db (db.setRun runId run') j :=
  .of_setRun hrun rfl fun _ => by rw [hstatus]; exact id

theorem leaseOp_finishesNone (h : LeaseOp now db db') (j : RunId) :
    FinishesNone db db' j := by
  cases h with
  | kept => exact .refl db j
  | recorded hrun howner hrecords => exact .of_record hrun (by rw [hrecords.same])
  | @opened runId run workerId leaseSeconds db₁ attempts hrun hseconds hlive hclean hclaim hclosed
      hinsert =>
      have hruns : db₁.runs = (db.setRun runId (run.claimed workerId leaseSeconds now)).runs := by
        rw [hclosed, Database.closeOpenAttempts_runs]
      exact .of_setRun hrun hruns fun _ => isTerminal_of_claimed
  | continued hrun hseconds howner =>
    exact .of_setRun hrun (Database.updateOpenAttempt_runs ..) fun _ => isTerminal_of_claimed
  | renewed hrun hseconds howner =>
    exact .of_setRun hrun (Database.updateOpenAttempt_runs ..) fun _ => id
  | released hrun howner =>
    apply FinishesNone.of_setRun hrun (Database.updateOpenAttempt_runs ..)
    intro _ hterminal
    cases hterminal

theorem terminated_runs (db : Database) (runId : RunId) (run' : AgentRun) (status : RunStatus)
    (workerId errorType errorMessage : Option String) (now : Time) :
    ((((db.setRun runId run').projectInputDeliveryStatus run').closeRunningAudits runId
      (auditStatus status) now (status == .interrupted)).finishOpenAttempt runId workerId
        status.attemptOutcome errorType errorMessage now).runs = (db.setRun runId run').runs := by
  simp [Database.finishOpenAttempt]

theorem setTerminalStatus_finishesNone (db : Database) (runId : RunId) (status : RunStatus)
    (errorType errorMessage : Option String) (tokenUsage : Option JsonObject)
    (workerId : Option String) (now : Time) (j : RunId)
    (hcommit : ¬ (runId = j ∧ isCommitted
      (setTerminalStatus db runId status errorType errorMessage tokenUsage workerId now))) :
    FinishesNone db (db.after
      (setTerminalStatus db runId status errorType errorMessage tokenUsage workerId now)) j := by
  revert hcommit
  unfold setTerminalStatus
  split_ifs with hstatus
  · exact fun _ => .refl db j
  · cases hrun : db.runs.get runId with
    | none => exact fun _ => .refl db j
    | some run =>
      simp only
      split_ifs with hdone hleftover hguard houtput
      · exact fun _ => .of_record hrun rfl
      · exact fun _ => .refl db j
      · exact fun _ => .refl db j
      · exact fun _ => .refl db j
      · intro hcommit
        have hruns := terminated_runs db runId (run.terminated status errorType errorMessage
          tokenUsage now) status workerId errorType errorMessage now
        exact .of_setRun hrun hruns fun hj => absurd ⟨hj.symm, rfl⟩ hcommit

theorem owner_finishesNone (db : Database) (e : Event) (howner : e.op.isOwner) (j : RunId)
    (hcommit : terminalCommit db e j = none) : FinishesNone db (step db e) j := by
  rcases owner_cases db e howner with hlease | ⟨runId, status, errorType, errorMessage, usage, w, hop⟩
  · exact leaseOp_finishesNone hlease j
  · obtain ⟨now, op⟩ := e
    cases hop
    apply setTerminalStatus_finishesNone
    intro h
    simp only [terminalCommit] at hcommit
    rw [if_pos h] at hcommit
    cases hcommit

variable {status : RunStatus}

theorem setTerminalStatus_committed {tokenUsage : Option JsonObject} (hcommit : isCommitted
      (setTerminalStatus db runId status errorType errorMessage tokenUsage workerId now)) :
    ∃ run ledger', db.runs.get runId = some run ∧ status.isTerminal ∧
      terminalGuard run status workerId now ∧
      (db.after (setTerminalStatus db runId status errorType errorMessage tokenUsage workerId
        now)).view runId =
          ⟨some (run.terminated status errorType errorMessage tokenUsage now), ledger'⟩ ∧
      Ledger.UpdatesOpen workerId
        (fun a => a.finished status.attemptOutcome errorType errorMessage now)
        (db.view runId).ledger ledger' := by
  revert hcommit
  unfold setTerminalStatus
  split_ifs with hstatus
  · intro hcommit
    cases hcommit
  · cases hrun : db.runs.get runId with
    | none =>
      intro hcommit
      cases hcommit
    | some run =>
      simp only
      split_ifs with hdone hleftover hguard houtput
      · intro hcommit
        cases hcommit
      · intro hcommit
        cases hcommit
      · intro hcommit
        cases hcommit
      · intro hcommit
        cases hcommit
      · intro _
        set run' := run.terminated status errorType errorMessage tokenUsage now with hrun'
        set db₁ := ((db.setRun runId run').projectInputDeliveryStatus run').closeRunningAudits
          runId (auditStatus status) now (status == .interrupted) with hdb₁
        have hattempts : db₁.attempts = db.attempts := by
          rw [hdb₁, Database.closeRunningAudits_attempts,
            Database.projectInputDeliveryStatus_attempts, Database.setRun_attempts]
        have hledger : (db₁.view runId).ledger = (db.view runId).ledger := by
          funext k
          simp [Database.view, hattempts]
        have hupdate := db₁.updateOpenAttempt_updatesOpen runId workerId
          (fun a => a.finished status.attemptOutcome errorType errorMessage now)
        rw [hledger] at hupdate
        refine ⟨run, _, rfl, by simpa using hstatus, by simpa using hguard, ?_, hupdate⟩
        apply view_of_get
        have hruns := terminated_runs db runId run' status workerId errorType errorMessage now
        rw [Database.after_ok, hruns, Database.get_setRun_self db hrun]

theorem terminalGuard_worker (h : LedgerInv run ledger n)
    (hguard : terminalGuard run status workerId now) : run.workerId = workerId := by
  unfold terminalGuard at hguard
  cases hstatus : run.status <;> simp only [hstatus] at hguard
  case pending =>
    simp only [Bool.and_eq_true, Option.isNone_iff_eq_none] at hguard
    rw [hguard.1, h.idle (.inl hstatus)]
  case running =>
    simp only [Bool.and_eq_true, beq_iff_eq] at hguard
    exact hguard.1.1
  case cancelRequested =>
    simp only [Bool.and_eq_true, beq_iff_eq] at hguard
    exact hguard.1.1
  all_goals cases hguard

/-! ## One operation -/

/-- An operation that is not the storage migration and commits no terminal status of the
run leaves it without a recognised owner. -/
theorem step_unfinished (db : Database) (e : Event) (runId : RunId)
    (hmigration : e.op.isStorageMigration = false)
    (hcommit : terminalCommit db e runId = none) (hview : ViewInv (db.view runId))
    (h : Unfinished (db.view runId)) : Unfinished ((step db e).view runId) := by
  by_cases howner : e.op.isOwner
  · have hnone := owner_finishesNone db e howner runId hcommit
    rcases owner_effect db e howner runId with hsame | hwrite
    · rw [hsame]
      exact h
    · exact ownerWrite_unfinished hwrite hview hnone h
  by_cases hservice : e.op.isServiceClosing
  · exact serviceClosing_unfinished (service_effect db e hservice runId) h
  obtain ⟨now, op⟩ := e
  cases op with
  | createRun args =>
    rcases createRun_effect db args now runId with hsame | hcreate
    · have hkept : (step db ⟨now, .createRun args⟩).view runId = db.view runId := hsame
      rw [hkept]
      exact h
    · exact createWrite_unfinished hcreate hview
  | others tables => exact h
  | failNonterminalForStorageMigration => cases hmigration
  | _ => first | exact absurd rfl howner | exact absurd rfl hservice

theorem terminalCommit_finished {e : Event} (hcommit : terminalCommit db e runId = some workerId)
    (hview : ViewInv (db.view runId)) (h : Unfinished (db.view runId)) (w : String) :
    (∃ run, (step db e).runs.get runId = some run ∧ run.status.isTerminal) ∧
      (runAttemptFinished (step db e) runId w = true ↔ workerId = some w) := by
  obtain ⟨now, op⟩ := e
  cases op with
  | setTerminalStatus id status errorType errorMessage tokenUsage worker =>
    simp only [terminalCommit] at hcommit
    split_ifs at hcommit with hcond
    obtain ⟨rfl, hcommitted⟩ := hcond
    obtain rfl : worker = workerId := Option.some.inj hcommit
    obtain ⟨run, ledger', hrun, hterminal, hguard, hafter, hupdate⟩ :=
      setTerminalStatus_committed hcommitted
    have hstep : (step db ⟨now, .setTerminalStatus id status errorType errorMessage tokenUsage
        worker⟩).view id =
        ⟨some (run.terminated status errorType errorMessage tokenUsage now), ledger'⟩ := hafter
    have hrow := congrArg RunView.run hstep
    have hledger := congrArg RunView.ledger hstep
    rw [Database.view_run] at hrow
    simp only at hrow hledger
    refine ⟨⟨_, hrow, hterminal⟩, ?_⟩
    obtain ⟨n, hn⟩ := hview.2 run hrun
    have hworker := terminalGuard_worker hn hguard
    have hn' := hn.finish (.inl hworker) hupdate
      (show (run.terminated status errorType errorMessage tokenUsage now).workerId = none from rfl)
    cases worker with
    | none =>
      -- Without a worker there was no open attempt, so no attempt got the word.
      have hsame := hn.updatesOpen_idle hworker hupdate
      have hunfinished : Unfinished ((step db ⟨now, .setTerminalStatus id status errorType
          errorMessage tokenUsage none⟩).view id) := by
        rw [hstep, hsame]
        refine ⟨?_, h.closed⟩
        rintro run' ⟨⟩ hstarted
        exact h.fresh run hrun hstarted
      have hviewInv : ViewInv ((step db ⟨now, .setTerminalStatus id status errorType
          errorMessage tokenUsage none⟩).view id) := by
        rw [hstep]
        exact .of_run hn'
      rw [hunfinished.not_finished hviewInv]
      simp
    | some worker =>
      obtain ⟨a, ha, hname, hledger'⟩ := hn.updatesOpen_owner hworker hupdate
      rw [← hledger] at hn'
      rw [runAttemptFinished_iff hrow hn', hledger, hledger', Function.update_self]
      have hword : status.attemptOutcome.text = status.text := by
        cases status <;> first | rfl | cases hterminal
      simp [AgentRunAttempt.finished, AgentRun.terminated, hterminal, hname, hword]
  | _ => cases hcommit

theorem runAttemptFinished_congr (hview : db'.view runId = db.view runId)
    (hinv : ViewInv (db.view runId)) (w : String) :
    runAttemptFinished db' runId w = runAttemptFinished db runId w := by
  have hrow : db'.runs.get runId = db.runs.get runId := congrArg RunView.run hview
  cases hrun : db.runs.get runId with
  | none =>
    simp [runAttemptFinished, hrun, hrow]
  | some run =>
    rw [hrun] at hrow
    obtain ⟨n, hn⟩ := hinv.2 run hrun
    have hn' : LedgerInv run (db'.view runId).ledger n := by
      rw [hview]
      exact hn
    rw [Bool.eq_iff_iff, runAttemptFinished_iff hrow hn', runAttemptFinished_iff hrun hn, hview]

theorem terminalCommit_of_terminal (hrun : db.runs.get runId = some run)
    (hterminal : run.status.isTerminal) (e : Event) :
    terminalCommit db e runId = none := by
  obtain ⟨now, op⟩ := e
  cases op with
  | setTerminalStatus id status errorType errorMessage tokenUsage worker =>
    apply if_neg
    rintro ⟨rfl, hcommitted⟩
    obtain ⟨run', ledger', hrun', hstatus, hguard, -⟩ := setTerminalStatus_committed hcommitted
    obtain rfl : run = run' := Option.some.inj (hrun.symm.trans hrun')
    rw [(terminalGuard_moves hstatus hguard).1] at hterminal
    cases hterminal
  | _ => rfl

/-! ## Histories -/

/-- A step of a history: an operation of the repository, or the write with which a worker
takes down the cleanup fence of a run after it has released the sandbox. -/
inductive HistoryStep where
  | repository (e : Event)
  | clearFence (runId : RunId)

/-- The database after one step of a history. -/
def historyStep (db : Database) : HistoryStep → Database
  | .repository e => step db e
  | .clearFence runId => Yuanlei.clearFence db runId

/-- The step is `fail_nonterminal_for_storage_migration`. -/
def HistoryStep.isStorageMigration : HistoryStep → Bool
  | .repository ⟨_, .failNonterminalForStorageMigration⟩ => true
  | _ => false

/-- `terminalCommit` of a step. -/
def HistoryStep.terminalCommit (db : Database) (runId : RunId) :
    HistoryStep → Option (Option String)
  | .repository e => AgentRunRepository.terminalCommit db e runId
  | .clearFence _ => none

/-- The database after a history. -/
def afterHistory (hs : List HistoryStep) : Database :=
  Transition.exec historyStep Database.empty hs

theorem afterHistory_concat (hs : List HistoryStep) (h : HistoryStep) :
    afterHistory (hs ++ [h]) = historyStep (afterHistory hs) h := by
  rw [afterHistory, Transition.exec_append, Transition.exec_cons, Transition.exec_nil]
  rfl

/-- Some step of the history is a `set_terminal_status` call with this worker that
commits the terminal status of the run. -/
def CommittedBy (hs : List HistoryStep) (runId : RunId) (workerId : String) : Prop :=
  ∃ front h rest, hs = front ++ h :: rest ∧
    h.terminalCommit (afterHistory front) runId = some (some workerId)

theorem committedBy_nil (runId : RunId) (w : String) : ¬ CommittedBy [] runId w := by
  rintro ⟨front, h, rest, hhs, -⟩
  simp at hhs

theorem committedBy_concat (hs : List HistoryStep) (h : HistoryStep) (runId : RunId) (w : String) :
    CommittedBy (hs ++ [h]) runId w ↔ CommittedBy hs runId w ∨
      h.terminalCommit (afterHistory hs) runId = some (some w) := by
  constructor
  · rintro ⟨front, h', rest, hhs, hcommit⟩
    rcases List.eq_nil_or_concat rest with rfl | ⟨rest, last, rfl⟩
    · obtain ⟨rfl, hlast⟩ := List.append_inj' hhs rfl
      obtain rfl : h = h' := by simpa using hlast
      exact .inr hcommit
    · have hhs' : hs ++ [h] = (front ++ h' :: rest) ++ [last] := by
        simpa using hhs
      obtain ⟨rfl, -⟩ := List.append_inj' hhs' rfl
      exact .inl ⟨front, h', rest, rfl, hcommit⟩
  · rintro (⟨front, h', rest, rfl, hcommit⟩ | hcommit)
    · exact ⟨front, h', rest ++ [h], by simp, hcommit⟩
    · exact ⟨hs, h, [], rfl, hcommit⟩

theorem clearFence_view (db : Database) (runId j : RunId) :
    (clearFence db runId).view j = db.view j ∨
      ∃ run, db.runs.get j = some run ∧ (clearFence db runId).view j =
        ⟨some { run with runtimeCleanupPending := false }, (db.view j).ledger⟩ := by
  by_cases hj : j = runId
  · subst hj
    cases hrun : db.runs.get j with
    | none =>
      left
      simp [Database.view, clearFence, hrun]
    | some run =>
      right
      refine ⟨run, rfl, ?_⟩
      simp [Database.view, clearFence, hrun]
  · left
    simp [Database.view, clearFence, hj]

/-- What every reachable database says about a run: its ledger agrees with it, it holds no
lease while it waits or after it has finished, and it is finished or has no attempt with
the word of a status. -/
structure HistoryInv (db : Database) (runId : RunId) : Prop where
  views : ViewInv (db.view runId)
  idle : LeaseIdle (db.view runId)
  state : Unfinished (db.view runId) ∨ ∃ run, db.runs.get runId = some run ∧ run.status.isTerminal

/-- Taking down a fence changes nothing that the test or the invariant reads. -/
theorem clearFence_finished (hinv : HistoryInv db runId) (id : RunId) :
    HistoryInv (clearFence db id) runId ∧
      ∀ w, runAttemptFinished (clearFence db id) runId w = runAttemptFinished db runId w := by
  rcases clearFence_view db id runId with hsame | ⟨run, hrun, hview⟩
  · refine ⟨⟨?_, ?_, ?_⟩, fun w => runAttemptFinished_congr hsame hinv.views w⟩
    · rw [hsame]
      exact hinv.views
    · rw [hsame]
      exact hinv.idle
    · have hrow : (clearFence db id).runs.get runId = db.runs.get runId :=
        congrArg RunView.run hsame
      rw [hsame, hrow]
      exact hinv.state
  · obtain ⟨n, hn⟩ := hinv.views.2 run hrun
    have hrow : (clearFence db id).runs.get runId =
        some { run with runtimeCleanupPending := false } := congrArg RunView.run hview
    have hledger : ((clearFence db id).view runId).ledger = (db.view runId).ledger := by
      rw [hview]
    have hn' : LedgerInv { run with runtimeCleanupPending := false }
        ((clearFence db id).view runId).ledger n := by
      exact hn.congr rfl rfl rfl hn.idle
    refine ⟨⟨?_, ?_, ?_⟩, fun w => ?_⟩
    · rw [hview, ← hledger]
      exact .of_run hn'
    · rw [hview]
      rintro run' ⟨⟩ hwaiting
      exact hinv.idle run hrun hwaiting
    · rcases hinv.state with hunfinished | ⟨run', hrun', hterminal⟩
      · left
        rw [hview]
        refine ⟨?_, hunfinished.closed⟩
        rintro run' ⟨⟩ hstarted
        exact hunfinished.fresh run hrun hstarted
      · obtain rfl : run = run' := Option.some.inj (hrun.symm.trans hrun')
        exact .inr ⟨_, hrow, hterminal⟩
    · rw [Bool.eq_iff_iff, runAttemptFinished_iff hrow hn', runAttemptFinished_iff hrun hn, hledger]

/-- One step keeps the invariant, and the test is positive afterwards when it was positive
before or when the step commits the terminal status for this worker. -/
theorem historyStep_finished (hinv : HistoryInv db runId)
    (h : HistoryStep) (hmigration : h.isStorageMigration = false) :
    HistoryInv (historyStep db h) runId ∧
      ∀ w, runAttemptFinished (historyStep db h) runId w = true ↔
        runAttemptFinished db runId w = true ∨ h.terminalCommit db runId = some (some w) := by
  cases h with
  | clearFence id =>
    obtain ⟨hnext, hsame⟩ := clearFence_finished hinv id
    refine ⟨hnext, fun w => ?_⟩
    rw [historyStep, hsame]
    simp [HistoryStep.terminalCommit]
  | repository e =>
    have hviews := effect_viewInv (step_effect db e runId) hinv.views
    have hidle := effect_leaseIdle (step_effect db e runId) hinv.idle
    have hop : e.op.isStorageMigration = false := by
      obtain ⟨now, op⟩ := e
      cases op <;> first | rfl | cases hmigration
    simp only [historyStep, HistoryStep.terminalCommit]
    rcases hinv.state with hunfinished | ⟨run, hrun, hterminal⟩
    · have hnobody := fun w => hunfinished.not_finished hinv.views w
      cases hcommit : terminalCommit db e runId with
      | none =>
        have hnext := step_unfinished db e runId hop hcommit hinv.views hunfinished
        refine ⟨⟨hviews, hidle, .inl hnext⟩, fun w => ?_⟩
        rw [hnext.not_finished hviews, hnobody]
        simp
      | some worker =>
        have hdone := (terminalCommit_finished hcommit hinv.views hunfinished "").1
        refine ⟨⟨hviews, hidle, .inr hdone⟩, fun w => ?_⟩
        rw [(terminalCommit_finished hcommit hinv.views hunfinished w).2, hnobody]
        simp
    · have hkept := step_settled hrun hterminal (hinv.idle run hrun (.inr hterminal)) e
      have hrow := (congrArg RunView.run hkept).trans hrun
      refine ⟨⟨hviews, hidle, .inr ⟨run, hrow, hterminal⟩⟩, fun w => ?_⟩
      rw [runAttemptFinished_congr hkept hinv.views, terminalCommit_of_terminal hrun hterminal]
      simp

/-- After every history without the storage migration the test recognises exactly the worker
that committed the terminal status. -/
theorem afterHistory_finished (runId : RunId) (hs : List HistoryStep)
    (hhs : ∀ h ∈ hs, h.isStorageMigration = false) :
    HistoryInv (afterHistory hs) runId ∧
      ∀ w, runAttemptFinished (afterHistory hs) runId w = true ↔ CommittedBy hs runId w := by
  induction hs using List.reverseRecOn with
  | nil =>
    have hempty : ∀ k, (Database.empty.view runId).ledger k = none := fun _ => rfl
    refine ⟨⟨⟨fun _ => hempty, ?_⟩, ?_, .inl (.of_empty hempty)⟩, fun w => ?_⟩
    · intro run hrun
      cases hrun
    · intro run hrun
      cases hrun
    · simp [committedBy_nil, runAttemptFinished, afterHistory, Database.empty]
  | append_singleton hs h ih =>
    obtain ⟨hinv, hiff⟩ := ih fun h' hh' => hhs h' (List.mem_append_left _ hh')
    have hmigration : h.isStorageMigration = false := hhs h (by simp)
    obtain ⟨hnext, hstep⟩ := historyStep_finished hinv h hmigration
    rw [afterHistory_concat]
    refine ⟨hnext, fun w => ?_⟩
    rw [hstep, hiff, committedBy_concat]

/-- Over every history without the storage migration the test of the worker is positive
exactly when a `set_terminal_status` call of this worker committed the terminal status of
the run, and then no call of another worker committed it. -/
theorem runAttemptFinished_iff_committed (hs : List HistoryStep)
    (hhs : ∀ h ∈ hs, h.isStorageMigration = false) (runId : RunId) (workerId : String) :
    (runAttemptFinished (afterHistory hs) runId workerId = true ↔ CommittedBy hs runId workerId) ∧
    (CommittedBy hs runId workerId → ∀ other, CommittedBy hs runId other → other = workerId) := by
  obtain ⟨hinv, hiff⟩ := afterHistory_finished runId hs hhs
  refine ⟨hiff workerId, fun hself other hother => ?_⟩
  rw [← hiff] at hself hother
  cases hrun : (afterHistory hs).runs.get runId with
  | none => simp [runAttemptFinished, hrun] at hself
  | some run =>
    obtain ⟨n, hn⟩ := hinv.views.2 run hrun
    obtain ⟨-, a, ha, hname, -⟩ := (runAttemptFinished_iff hrun hn workerId).mp hself
    obtain ⟨-, b, hb, hname', -⟩ := (runAttemptFinished_iff hrun hn other).mp hother
    obtain rfl : a = b := Option.some.inj (ha.symm.trans hb)
    rw [← hname, ← hname']

/-- A run whose first worker lets its attempt go and whose second worker fails it. -/
def retriedHistory : List HistoryStep :=
  [.repository ⟨0, .createRun
      { runId := "run", conversationThreadId := "thread", agentSlug := "agent", uid := "user",
        requestId := "request", inputPayload := [] }⟩,
    .repository ⟨1, .markRunning "run" "first" 60⟩,
    .repository ⟨2, .releaseLeaseForRetry "run" "first"⟩,
    .clearFence "run",
    .repository ⟨3, .markRunning "run" "second" 60⟩,
    .repository ⟨4, .setTerminalStatus "run" .failed none none none (some "second")⟩]

theorem retriedHistory_committed : (∀ h ∈ retriedHistory, h.isStorageMigration = false) ∧
      CommittedBy retriedHistory "run" "second" ∧ ¬ CommittedBy retriedHistory "run" "first" := by
  have hhs : ∀ h ∈ retriedHistory, h.isStorageMigration = false := by decide
  refine ⟨hhs, ?_, ?_⟩
  · exact (runAttemptFinished_iff_committed retriedHistory hhs "run" "second").1.mp
      (by decide +kernel)
  · rw [← (runAttemptFinished_iff_committed retriedHistory hhs "run" "first").1]
    decide +kernel

end AgentRunRepository
end Yuanlei
