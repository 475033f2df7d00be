import Yuanlei.AgentRun.StatusGraph

/-!
# Lease fencing

The owner checks of the repository admit one worker token at a time, and a lease
that has expired under its worker is final: no token renews it, records anything,
releases or claims the run, or commits its result, and the run can only fail.

Main results:

- `step_lost`: every operation after the expiry keeps the run lost.
- `lease_fencing`: uniqueness of the accepted token and finality of the
  expiry over every sequence of operations.
-/

namespace Yuanlei.AgentRunRepository

open Relation

/-! ## Tokens that pass an owner check -/

/-- An operation of the owner accepts the token at the given clock reading. -/
inductive OwnerAccepts (db : Database) (runId : RunId) (now : Time) (workerId : String) : Prop
  | setOutputMessage (messageId : Nat) (run : AgentRun) (db' : Database)
      (h : setOutputMessage db runId messageId workerId now = .ok (some run, db'))
  | lockOutputPersistence (threadId requestId : String) (run : AgentRun)
      (h : lockOutputPersistence db runId workerId threadId requestId now = .ok (some run))
  | lockMemoryWrite (uid threadId requestId : String) (run : AgentRun)
      (h : lockMemoryWrite db runId uid workerId threadId requestId now = .ok (some run))
  | setLangfuseTraceId (traceId : String) (run : AgentRun) (db' : Database)
      (h : setLangfuseTraceId db runId traceId workerId now = .ok (some run, db'))
  | recordRunManifest (manifest : JsonObject) (fingerprint : String) (run : AgentRun)
      (changed : Bool) (db' : Database)
      (h : recordRunManifest db runId manifest fingerprint workerId now =
        .ok ((some run, changed), db'))
  | recordPrepared (observedAt : Option Time) (run : AgentRun) (db' : Database)
      (h : recordPrepared db runId workerId observedAt now = .ok ((some run, true), db'))
  | recordFirstModelRequest (observedAt : Option Time) (run : AgentRun) (db' : Database)
      (h : recordFirstModelRequest db runId workerId observedAt now = .ok ((some run, true), db'))
  | recordFirstOutput (observedAt : Option Time) (run : AgentRun) (db' : Database)
      (h : recordFirstOutput db runId workerId observedAt now = .ok ((some run, true), db'))
  | releaseLeaseForRetry (db' : Database)
      (h : releaseLeaseForRetry db runId workerId now = .ok (true, db'))
  | renewLease (leaseSeconds : Int) (db' : Database)
      (h : renewLease db runId workerId leaseSeconds now = .ok (true, db'))

variable {db : Database} {runId : RunId} {now : Time} {workerId : String}

section Accepted

variable {α β : Type} {missing : Except String α} {a : α}

theorem get_of_ok {write : AgentRun → Except String α} (hmissing : missing ≠ .ok a)
    (h : (match db.runs.get runId with
      | none => missing
      | some run => write run) = .ok a) :
    ∃ run, db.runs.get runId = some run ∧ write run = .ok a := by
  cases hrun : db.runs.get runId with
  | none => exact absurd (by simpa only [hrun] using h) hmissing
  | some run => exact ⟨run, rfl, by simpa only [hrun] using h⟩

theorem leasedOwner_of_ok {run : AgentRun} {action : String}
    (h : (match requireLeaseOwner run workerId now action with
      | .error e => Except.error e
      | .ok () => missing) = .ok a) : run.leasedOwner workerId now := by
  cases howner : requireLeaseOwner run workerId now action with
  | error e =>
    rw [howner] at h
    cases h
  | ok u => exact leasedOwner_of_runningOwner (requireLeaseOwner_eq_ok howner)

end Accepted

theorem ownerAccepts_leasedOwner (haccept : OwnerAccepts db runId now workerId) :
    ∃ run, db.runs.get runId = some run ∧ run.leasedOwner workerId now := by
  cases haccept with
  | setOutputMessage messageId run db' h =>
    unfold setOutputMessage at h
    split_ifs at h
    obtain ⟨run, hrun, h⟩ := get_of_ok (by simp) h
    exact ⟨run, hrun, leasedOwner_of_ok h⟩
  | lockOutputPersistence threadId requestId run h =>
    unfold lockOutputPersistence at h
    split_ifs at h
    obtain ⟨run, hrun, h⟩ := get_of_ok (by simp) h
    exact ⟨run, hrun, leasedOwner_of_ok h⟩
  | lockMemoryWrite uid threadId requestId run h =>
    unfold lockMemoryWrite at h
    split_ifs at h
    obtain ⟨run, hrun, h⟩ := get_of_ok (by simp) h
    exact ⟨run, hrun, leasedOwner_of_ok h⟩
  | setLangfuseTraceId traceId run db' h =>
    unfold setLangfuseTraceId at h
    simp only at h
    split_ifs at h
    obtain ⟨run, hrun, h⟩ := get_of_ok (by simp) h
    exact ⟨run, hrun, leasedOwner_of_ok h⟩
  | recordRunManifest manifest fingerprint run changed db' h =>
    unfold recordRunManifest at h
    split_ifs at h
    obtain ⟨run, hrun, h⟩ := get_of_ok (by simp) h
    exact ⟨run, hrun, leasedOwner_of_ok h⟩
  | recordPrepared observedAt run db' h =>
    obtain ⟨run, hrun, h⟩ := get_of_ok (by simp) h
    split at h
    · cases h
    · exact ⟨run, hrun, leasedOwner_of_ok h⟩
  | recordFirstModelRequest observedAt run db' h =>
    obtain ⟨run, hrun, h⟩ := get_of_ok (by simp) h
    split_ifs at h with hrecorded howner
    · cases h
    · exact ⟨run, hrun, by simpa using howner⟩
  | recordFirstOutput observedAt run db' h =>
    obtain ⟨run, hrun, h⟩ := get_of_ok (by simp) h
    split at h
    · cases h
    · exact ⟨run, hrun, leasedOwner_of_ok h⟩
  | releaseLeaseForRetry db' h =>
    obtain ⟨run, hrun, h⟩ := get_of_ok (by simp) h
    split_ifs at h with howner
    · exact ⟨run, hrun, leasedOwner_of_runningOwner howner⟩
    · cases h
  | renewLease leaseSeconds db' h =>
    unfold renewLease at h
    split_ifs at h
    obtain ⟨run, hrun, h⟩ := get_of_ok (by simp) h
    split_ifs at h with howner
    · exact ⟨run, hrun, howner⟩
    · cases h

/-- At one instant at most one token passes an owner check. -/
theorem ownerAccepts_unique {w w' : String}
    (h : OwnerAccepts db runId now w) (h' : OwnerAccepts db runId now w') : w = w' := by
  obtain ⟨run, hrun, howner⟩ := ownerAccepts_leasedOwner h
  obtain ⟨run', hrun', howner'⟩ := ownerAccepts_leasedOwner h'
  obtain rfl : run = run' := Option.some.inj (hrun.symm.trans hrun')
  exact Option.some.inj ((leasedOwner_worker howner).symm.trans (leasedOwner_worker howner'))

/-! ## Runs that lost their lease -/

theorem leaseLive_mono {lease : Option Time} {t t' : Time} (ht : t ≤ t')
    (hlost : leaseLive lease t = false) : leaseLive lease t' = false := by
  cases lease with
  | none => rfl
  | some expiry =>
    simp only [leaseLive, decide_eq_false_iff_not, not_lt] at *
    exact le_trans hlost ht

/-- The lease of the run expired at `t₀` under its worker, or the run has failed. -/
def Lost (t₀ : Time) (v : RunView) : Prop :=
  ∃ run, v.run = some run ∧
    ((run.status.isLeased ∧ run.workerId.isSome ∧ leaseLive run.leaseExpiresAt t₀ = false) ∨
      run.status = .failed)

variable {t₀ : Time} {run : AgentRun} {ledger : Ledger}

theorem not_leasedOwner_of_lost (ht : t₀ ≤ now) (hlost : Lost t₀ ⟨some run, ledger⟩)
    (workerId : String) :
    ¬ run.leasedOwner workerId now := by
  intro howner
  obtain ⟨run', ⟨⟩, ⟨-, -, hexpired⟩ | hfailed⟩ := hlost
  · have hlive := leasedOwner_leaseLive howner
    rw [leaseLive_mono ht hexpired] at hlive
    cases hlive
  · have hlive := leasedOwner_live howner
    rw [hfailed] at hlive
    cases hlive

theorem not_terminalGuard_of_lost (ht : t₀ ≤ now) (hlost : Lost t₀ ⟨some run, ledger⟩)
    (status : RunStatus)
    (workerId : Option String) : ¬ terminalGuard run status workerId now := by
  intro hguard
  obtain ⟨run', ⟨⟩, ⟨hleased, -, hexpired⟩ | hfailed⟩ := hlost
  · have hdead := leaseLive_mono ht hexpired
    cases hstatus : run.status <;>
      simp [terminalGuard, hstatus, hdead, RunStatus.isLeased] at hguard hleased
  · simp [terminalGuard, hfailed] at hguard

theorem not_initialClaim_of_lost (hlost : Lost t₀ ⟨some run, ledger⟩) : run.initialClaim = false := by
  obtain ⟨run', ⟨⟩, ⟨hleased, hworker, -⟩ | hfailed⟩ := hlost
  · obtain ⟨w, hw⟩ := Option.isSome_iff_exists.mp hworker
    cases hstatus : run.status <;>
      simp [AgentRun.initialClaim, hstatus, hw, RunStatus.isLeased] at hleased ⊢
  · simp [AgentRun.initialClaim, hfailed]

variable {v v' : RunView}

theorem ownerWrite_lost (ht : t₀ ≤ now) (h : OwnerWrite now v v') (hlost : Lost t₀ v) : Lost t₀ v' := by
  cases h with
  | opened hseconds hlive hclean hclaim hmax =>
    rw [not_initialClaim_of_lost hlost] at hclaim
    cases hclaim
  | continued hseconds howner hledger => exact absurd howner (not_leasedOwner_of_lost ht hlost _)
  | renewed hseconds howner hledger => exact absurd howner (not_leasedOwner_of_lost ht hlost _)
  | released howner hledger =>
    exact absurd (leasedOwner_of_runningOwner howner) (not_leasedOwner_of_lost ht hlost _)
  | terminated hterminal hguard hledger =>
    exact absurd hguard (not_terminalGuard_of_lost ht hlost _ _)
  | @cleared run ledger hterminal hleftover =>
    obtain ⟨run', ⟨⟩, ⟨hleased, -, -⟩ | hfailed⟩ := hlost
    · cases hstatus : run.status <;>
        simp [hstatus, RunStatus.isLeased, RunStatus.isTerminal] at hleased hterminal
    · exact ⟨_, rfl, .inr hfailed⟩
  | recorded howner hrecords => exact absurd howner (not_leasedOwner_of_lost ht hlost _)

theorem closingWrite_lost (h : ClosingWrite v v') (hlost : Lost t₀ v) : Lost t₀ v' := by
  -- A lost run has been started, so the closing writes can only ask it to stop or fail it.
  have hstarted : ∀ {run : AgentRun}, v.run = some run → run.notStarted = false := by
    intro run hrun
    by_contra hfresh
    have hpending := AgentRun.notStarted_status (by simpa using hfresh)
    obtain ⟨run', hrun', ⟨hleased, -, -⟩ | hfailed⟩ := hlost
    · obtain rfl : run = run' := Option.some.inj (hrun.symm.trans hrun')
      simp [hpending, RunStatus.isLeased] at hleased
    · obtain rfl : run = run' := Option.some.inj (hrun.symm.trans hrun')
      simp [hpending] at hfailed
  have hkept : ∀ {run : AgentRun}, v.run = some run → run.status.isTerminal = false →
      run.workerId.isSome ∧ leaseLive run.leaseExpiresAt t₀ = false := by
    intro run hrun hlive
    obtain ⟨run', hrun', ⟨-, hworker, hexpired⟩ | hfailed⟩ := hlost
    · obtain rfl : run = run' := Option.some.inj (hrun.symm.trans hrun')
      exact ⟨hworker, hexpired⟩
    · obtain rfl : run = run' := Option.some.inj (hrun.symm.trans hrun')
      simp [hfailed, RunStatus.isTerminal] at hlive
  cases h with
  | cancelledBeforeStart hfresh => simp [hstarted rfl] at hfresh
  | cancelAsked hlive =>
    have hsame := hkept rfl hlive
    exact ⟨_, rfl, .inl ⟨rfl, hsame⟩⟩
  | treeCancelled hfresh => simp [hstarted rfl] at hfresh
  | treeCancelAsked hlive =>
    have hsame := hkept rfl hlive
    exact ⟨_, rfl, .inl ⟨rfl, hsame⟩⟩
  | leaseLost hlive => exact ⟨_, rfl, .inr rfl⟩
  | storageMigrated hlive => exact ⟨_, rfl, .inr rfl⟩

theorem effect_lost (ht : t₀ ≤ now) (h : Effect now v v') (hlost : Lost t₀ v) : Lost t₀ v' := by
  rcases h with hcreate | hwrite | hclose
  · cases hcreate with
    | created hshape => obtain ⟨run, ⟨⟩, -⟩ := hlost
  · exact ownerWrite_lost ht hwrite hlost
  · induction hclose with
    | refl => exact hlost
    | tail _ hlast ih => exact closingWrite_lost hlast ih

theorem step_lost {e : Event} (ht : t₀ ≤ e.now)
    (hlost : Lost t₀ (db.view runId)) : Lost t₀ ((step db e).view runId) :=
  effect_lost ht (step_effect db e runId) hlost

theorem exec_lost {es : List Event} (ht : ∀ e ∈ es, t₀ ≤ e.now) (hlost : Lost t₀ (db.view runId)) :
    Lost t₀ ((Transition.exec step db es).view runId) := by
  induction es generalizing db with
  | nil => exact hlost
  | cons e es ih =>
    exact ih (fun e' he' => ht e' (List.mem_cons_of_mem _ he'))
      (step_lost (ht e List.mem_cons_self) hlost)

/-! ## Fencing -/

theorem markRunning_of_lost (ht : t₀ ≤ now) (hlost : Lost t₀ (db.view runId)) (workerId : String)
    (leaseSeconds : Int)
    (result : Option AgentRun) (db' : Database) :
    markRunning db runId workerId leaseSeconds now ≠ .ok ((result, true), db') := by
  obtain ⟨run, hrun, -⟩ := id hlost
  rw [view_of_get hrun] at hlost
  have howner := not_leasedOwner_of_lost ht hlost workerId
  have hclaim := not_initialClaim_of_lost hlost
  rw [Database.view_run] at hrun
  unfold markRunning
  rw [hrun]
  intro h
  simp only [hclaim, howner] at h
  grind

theorem setTerminalStatus_of_lost (ht : t₀ ≤ now) (hlost : Lost t₀ (db.view runId))
    (status : RunStatus)
    (errorType errorMessage : Option String) (tokenUsage : Option JsonObject)
    (workerId : Option String) (result : Option AgentRun) (db' : Database) :
    setTerminalStatus db runId status errorType errorMessage tokenUsage workerId now ≠
      .ok ((result, true), db') := by
  obtain ⟨run, hrun, -⟩ := id hlost
  rw [view_of_get hrun] at hlost
  have hguard := not_terminalGuard_of_lost ht hlost status workerId
  rw [Database.view_run] at hrun
  unfold setTerminalStatus
  rw [hrun]
  intro h
  simp only [hguard] at h
  grind

/-- In every state that a sequence of operations reaches: at one instant at most one
token passes an owner check; and once the clock has reached the expiry of a leased run
with a worker, then after any further operations under a clock that does not go back no
token passes an owner check, claims the run or commits a terminal status, and the only
terminal status of the run is failed. -/
theorem lease_fencing (db : Database) (es : List Event) (runId : RunId) :
    (∀ now w w', OwnerAccepts (Transition.exec step db es) runId now w →
      OwnerAccepts (Transition.exec step db es) runId now w' → w = w') ∧
    ∀ t₀ run, (Transition.exec step db es).runs.get runId = some run →
      run.status = .running ∨ run.status = .cancelRequested → run.workerId ≠ none →
      (∀ expiry ∈ run.leaseExpiresAt, expiry ≤ t₀) →
      ∀ es' t, (t₀ :: (es'.map Event.now ++ [t])).Pairwise (· ≤ ·) →
        (∀ w, ¬ OwnerAccepts (Transition.exec step db (es ++ es')) runId t w) ∧
        (∀ w leaseSeconds result db',
          markRunning (Transition.exec step db (es ++ es')) runId w leaseSeconds t ≠
            .ok ((result, true), db')) ∧
        (∀ status errorType errorMessage tokenUsage w result db',
          setTerminalStatus (Transition.exec step db (es ++ es')) runId status errorType
            errorMessage tokenUsage w t ≠ .ok ((result, true), db')) ∧
        ∃ run', (Transition.exec step db (es ++ es')).runs.get runId = some run' ∧
          (run'.status.isTerminal → run'.status = .failed) := by
  refine ⟨fun now w w' h h' => ownerAccepts_unique h h', ?_⟩
  intro t₀ run hrun hstatus hworker hexpired es' t hclock
  have hlater := (List.pairwise_cons.mp hclock).1
  have ht : t₀ ≤ t := hlater t (by simp)
  have hevents : ∀ e ∈ es', t₀ ≤ e.now := fun e he =>
    hlater e.now (List.mem_append_left _ (List.mem_map_of_mem he))
  have hstart : Lost t₀ ((Transition.exec step db es).view runId) := by
    refine ⟨run, hrun, .inl ⟨?_, Option.ne_none_iff_isSome.mp hworker, ?_⟩⟩
    · rcases hstatus with hs | hs <;> simp [hs, RunStatus.isLeased]
    · cases hlease : run.leaseExpiresAt with
      | none => rfl
      | some expiry => simpa [leaseLive] using hexpired expiry hlease
  have hlost := exec_lost hevents hstart
  rw [← Transition.exec_append] at hlost
  refine ⟨fun w haccept => ?_, fun w leaseSeconds result db' =>
    markRunning_of_lost ht hlost w leaseSeconds result db', fun status errorType errorMessage
    tokenUsage w result db' => setTerminalStatus_of_lost ht hlost status errorType errorMessage
    tokenUsage w result db', ?_⟩
  · obtain ⟨run', hrun', howner⟩ := ownerAccepts_leasedOwner haccept
    rw [view_of_get hrun'] at hlost
    exact not_leasedOwner_of_lost ht hlost w howner
  · obtain ⟨run', hrun', hleased | hfailed⟩ := hlost
    · refine ⟨run', hrun', fun hterminal => ?_⟩
      cases hs : run'.status <;>
        simp [hs, RunStatus.isLeased, RunStatus.isTerminal] at hleased hterminal
    · exact ⟨run', hrun', fun _ => hfailed⟩

end Yuanlei.AgentRunRepository
