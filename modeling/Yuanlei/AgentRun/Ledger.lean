import Yuanlei.AgentRun.StatusGraph
import Mathlib.Data.List.Perm.Basic
import Mathlib.Data.List.Range

/-!
# The attempt ledger

Every execution ownership of a run is one attempt.  The run row and its attempts
are written by different helpers; this module shows that they never disagree on
who owns the run.

Main results:

- `effect_viewInv`: every operation keeps the invariant.
- `ledger_agrees`: the invariant in every reachable state, with the
  finality of closed attempts.
-/

namespace Yuanlei

open Relation

/-! ## The invariant -/

/-- The attempts of a run are numbered `1..n`, and the last one is open exactly
while the run has a worker, whose lease it mirrors. -/
structure LedgerInv (run : AgentRun) (ledger : Ledger) (n : Nat) : Prop where
  numbers : ∀ k, (ledger k).isSome ↔ 1 ≤ k ∧ k ≤ n
  openIff : ∀ {k a}, ledger k = some a → (a.finishedAt = none ↔ k = n ∧ run.workerId ≠ none)
  claimed : run.workerId ≠ none → 1 ≤ n
  mirror : ∀ {a}, ledger n = some a → a.finishedAt = none →
    run.workerId = some a.workerId ∧ run.heartbeatAt = a.heartbeatAt ∧
      run.leaseExpiresAt = a.leaseExpiresAt
  outcome : ∀ {k a}, ledger k = some a → a.finishedAt ≠ none → a.outcome ≠ none
  idle : run.status = .pending ∨ run.status.isTerminal → run.workerId = none

/-- The invariant of a view: a run that does not exist has no attempts. -/
def ViewInv (v : RunView) : Prop :=
  (v.run = none → ∀ k, v.ledger k = none) ∧ ∀ run, v.run = some run → ∃ n, LedgerInv run v.ledger n

theorem ViewInv.of_run {run : AgentRun} {ledger : Ledger} {n : Nat}
    (h : LedgerInv run ledger n) : ViewInv ⟨some run, ledger⟩ := by
  constructor
  · intro hnone
    cases hnone
  · rintro run' ⟨⟩
    exact ⟨n, h⟩

namespace LedgerInv

variable {run run' : AgentRun} {ledger ledger' : Ledger} {n : Nat}

section

variable (h : LedgerInv run ledger n)
include h

theorem congr (hworker : run'.workerId = run.workerId)
    (hheartbeat : run'.heartbeatAt = run.heartbeatAt)
    (hlease : run'.leaseExpiresAt = run.leaseExpiresAt)
    (hidle : run'.status = .pending ∨ run'.status.isTerminal → run.workerId = none) :
    LedgerInv run' ledger n where
  numbers := h.numbers
  openIff := by
    rw [hworker]
    exact h.openIff
  claimed := by
    rw [hworker]
    exact h.claimed
  mirror := by
    rw [hworker, hheartbeat, hlease]
    exact h.mirror
  outcome := h.outcome
  idle := by
    rw [hworker]
    exact hidle

/-- Closing the ledger of a run that gives up its lease. -/
theorem closeAll (hworker : run'.workerId = none)
    (outcome : AttemptOutcome) (errorType errorMessage : Option String) (now : Time) :
    LedgerInv run' (ledger.closeAll outcome errorType errorMessage now) n := by
  have hclosed : ∀ {k a}, ledger.closeAll outcome errorType errorMessage now k = some a →
      a.finishedAt ≠ none ∧ a.outcome ≠ none := by
    intro k a ha
    obtain ⟨a₀, ha₀, rfl⟩ := Option.map_eq_some_iff.mp ha
    split_ifs with hopen
    · exact ⟨by simp [AgentRunAttempt.finished], by simp [AgentRunAttempt.finished]⟩
    · exact ⟨hopen, h.outcome ha₀ hopen⟩
  exact {
    numbers := by
      intro k
      simpa [Ledger.closeAll] using h.numbers k
    openIff := fun ha => by simp [(hclosed ha).1, hworker]
    claimed := fun hne => absurd hworker hne
    mirror := fun ha hopen => absurd hopen (hclosed ha).1
    outcome := fun ha _ => (hclosed ha).2
    idle := fun _ => hworker }

variable {workerId : Option String} {f : AgentRunAttempt → AgentRunAttempt}

theorem updatesOpen_idle (hworker : run.workerId = none)
    (hupdate : Ledger.UpdatesOpen workerId f ledger ledger') : ledger' = ledger := by
  cases hupdate with
  | latest hopen hmax =>
    obtain ⟨a, ha, hfinished, -⟩ := hopen
    exact absurd hworker ((h.openIff ha).mp hfinished).2
  | absent hnone => rfl

variable {w : String}

/-- With a worker the rewritten attempt is the last one. -/
theorem updatesOpen_owner (hworker : run.workerId = some w)
    (hupdate : Ledger.UpdatesOpen (some w) f ledger ledger') :
    ∃ a, ledger n = some a ∧ a.workerId = w ∧ ledger' = Function.update ledger n (some (f a)) := by
  have hn : 1 ≤ n := h.claimed (by simp [hworker])
  obtain ⟨a, ha⟩ := Option.isSome_iff_exists.mp ((h.numbers n).mpr ⟨hn, le_rfl⟩)
  have hopen : a.finishedAt = none := (h.openIff ha).mpr ⟨rfl, by simp [hworker]⟩
  have hw : a.workerId = w := by
    have hmirror := (h.mirror ha hopen).1
    rw [hworker] at hmirror
    exact (Option.some.inj hmirror).symm
  refine ⟨a, ha, hw, ?_⟩
  cases hupdate with
  | @latest k hk hmax =>
    obtain ⟨b, hb, hfinished, -⟩ := hk
    obtain rfl : k = n := ((h.openIff hb).mp hfinished).1
    rw [ha]
    rfl
  | absent hnone =>
    exact absurd ⟨a, ha, hopen, fun _ hv => by cases hv; exact hw⟩ (hnone n)

variable {lease now : Time}

/-- Mirroring a renewed lease on the last attempt. -/
theorem heartbeat (hworker : run.workerId = some w)
    (hupdate : Ledger.UpdatesOpen (some w) (fun a => a.heartbeat (some lease) now) ledger ledger')
    (hworker' : run'.workerId = some w) (hheartbeat : run'.heartbeatAt = some now)
    (hlease : run'.leaseExpiresAt = some lease) (hstatus : run'.status = run.status) :
    LedgerInv run' ledger' n := by
  obtain ⟨a, ha, hw, rfl⟩ := h.updatesOpen_owner hworker hupdate
  have hopen : a.finishedAt = none := (h.openIff ha).mpr ⟨rfl, by simp [hworker]⟩
  exact {
    numbers := by
      intro k
      by_cases hk : k = n
      · subst hk
        simpa [ha] using h.numbers k
      · simpa [Function.update_of_ne hk] using h.numbers k
    openIff := by
      intro k b hb
      by_cases hk : k = n
      · subst hk
        simp only [Function.update_self, Option.some.injEq] at hb
        subst hb
        simp [AgentRunAttempt.heartbeat, hopen, hworker']
      · rw [Function.update_of_ne hk] at hb
        simpa [hworker, hworker'] using h.openIff hb
    claimed := fun _ => h.claimed (by simp [hworker])
    mirror := by
      intro b hb _
      simp only [Function.update_self, Option.some.injEq] at hb
      subst hb
      simp [AgentRunAttempt.heartbeat, hworker', hheartbeat, hlease, hw]
    outcome := by
      intro k b hb hfinished
      by_cases hk : k = n
      · subst hk
        simp only [Function.update_self, Option.some.injEq] at hb
        subst hb
        exact absurd hopen hfinished
      · rw [Function.update_of_ne hk] at hb
        exact h.outcome hb hfinished
    idle := by
      rw [hstatus]
      intro hidle
      rw [h.idle hidle] at hworker
      cases hworker }

/-- Ending the last attempt of a run that gives up its lease. -/
theorem finish (howner : run.workerId = workerId ∨ run.workerId = none) {outcome : AttemptOutcome}
    {errorType errorMessage : Option String} (hupdate : Ledger.UpdatesOpen workerId
      (fun a => a.finished outcome errorType errorMessage now) ledger ledger')
    (hworker' : run'.workerId = none) : LedgerInv run' ledger' n := by
  cases hworker : run.workerId with
  | none =>
    rw [h.updatesOpen_idle hworker hupdate]
    exact {
      numbers := h.numbers
      openIff := fun ha => by simpa [hworker, hworker'] using h.openIff ha
      claimed := fun hne => absurd hworker' hne
      mirror := fun ha hopen => absurd hworker ((h.openIff ha).mp hopen).2
      outcome := h.outcome
      idle := fun _ => hworker' }
  | some w =>
    obtain rfl : workerId = some w := by
      rcases howner with hsame | hnone
      · rw [← hsame, hworker]
      · rw [hnone] at hworker
        cases hworker
    obtain ⟨a, ha, -, rfl⟩ := h.updatesOpen_owner hworker hupdate
    have hclosed : ∀ {k b}, Function.update ledger n
        (some (a.finished outcome errorType errorMessage now)) k = some b →
        b.finishedAt ≠ none ∧ b.outcome ≠ none := by
      intro k b hb
      by_cases hk : k = n
      · subst hk
        simp only [Function.update_self, Option.some.injEq] at hb
        subst hb
        simp [AgentRunAttempt.finished]
      · rw [Function.update_of_ne hk] at hb
        have hfinished : b.finishedAt ≠ none := fun hopen => hk ((h.openIff hb).mp hopen).1
        exact ⟨hfinished, h.outcome hb hfinished⟩
    exact {
      numbers := by
        intro k
        by_cases hk : k = n
        · subst hk
          simpa [ha] using h.numbers k
        · simpa [Function.update_of_ne hk] using h.numbers k
      openIff := fun hb => by simp [(hclosed hb).1, hworker']
      claimed := fun hne => absurd hworker' hne
      mirror := fun hb hopen => absurd hopen (hclosed hb).1
      outcome := fun hb _ => (hclosed hb).2
      idle := fun _ => hworker' }

theorem openNext (hworker : run.workerId = none) (hworker' : run'.workerId = some w)
    (hheartbeat : run'.heartbeatAt = some now) (hlease : run'.leaseExpiresAt = some lease)
    (hstatus : run'.status = .running ∨ run'.status = .cancelRequested) :
    LedgerInv run' (Function.update ledger (n + 1) (some (.opened w (some lease) now)))
      (n + 1) where
  numbers := by
    intro k
    by_cases hk : k = n + 1
    · subst hk
      simp
    · have hold := h.numbers k
      rw [Function.update_of_ne hk, hold]
      omega
  openIff := by
    intro k b hb
    by_cases hk : k = n + 1
    · subst hk
      simp only [Function.update_self, Option.some.injEq] at hb
      subst hb
      simp [AgentRunAttempt.opened, hworker']
    · rw [Function.update_of_ne hk] at hb
      have hclosed := h.openIff hb
      simp [hworker] at hclosed
      simp [hclosed, hk]
  claimed := fun _ => by omega
  mirror := by
    intro b hb _
    simp only [Function.update_self, Option.some.injEq] at hb
    subst hb
    simp [AgentRunAttempt.opened, hworker', hheartbeat, hlease]
  outcome := by
    intro k b hb hfinished
    by_cases hk : k = n + 1
    · subst hk
      simp only [Function.update_self, Option.some.injEq] at hb
      subst hb
      exact absurd rfl hfinished
    · rw [Function.update_of_ne hk] at hb
      exact h.outcome hb hfinished
  idle := by
    intro hidle
    rcases hstatus with hs | hs <;> simp [hs, RunStatus.isTerminal] at hidle

/-- The greatest number of a ledger that meets the invariant. -/
theorem isMaxNo_eq {m : Nat} (hmax : ledger.IsMaxNo m) : m = n := by
  obtain ⟨hbound, hlast⟩ := hmax
  apply le_antisymm
  · rcases hlast with rfl | hsome
    · exact Nat.zero_le n
    · exact ((h.numbers m).mp hsome).2
  · rcases Nat.eq_zero_or_pos n with rfl | hpos
    · exact Nat.zero_le m
    · obtain ⟨a, ha⟩ := Option.isSome_iff_exists.mp ((h.numbers n).mpr ⟨hpos, le_rfl⟩)
      exact hbound n a ha

end

end LedgerInv

namespace AgentRunRepository

/-! ## Preservation -/

variable {now : Time} {v v' : RunView}

theorem createWrite_viewInv (h : CreateWrite now v v') (hv : ViewInv v) : ViewInv v' := by
  cases h with
  | @created args ledger hshape =>
    have hempty : ∀ k, ledger k = none := hv.1 rfl
    refine ViewInv.of_run (n := 0) ⟨fun k => ?_, fun ha => ?_, fun hne => ?_, fun ha => ?_,
      fun ha => ?_, fun _ => rfl⟩
    · simp only [hempty k, Option.isSome_none, Bool.false_eq_true, false_iff]
      omega
    · simp [hempty] at ha
    · exact absurd rfl hne
    · simp [hempty] at ha
    · simp [hempty] at ha

theorem ownerWrite_viewInv (h : OwnerWrite now v v') (hv : ViewInv v) : ViewInv v' := by
  cases h with
  | @opened run ledger w seconds m hseconds hlive hclean hclaim hmax =>
    obtain ⟨n, hn⟩ := hv.2 run rfl
    obtain rfl := hn.isMaxNo_eq hmax
    simp only [AgentRun.initialClaim, Bool.or_eq_true, Bool.and_eq_true, beq_iff_eq,
      Option.isNone_iff_eq_none] at hclaim
    have hworker : run.workerId = none := by
      rcases hclaim with hpending | ⟨-, hnone⟩
      · exact hn.idle (.inl hpending)
      · exact hnone
    refine .of_run ((hn.closeAll hworker _ _ _ _).openNext hworker rfl rfl rfl ?_)
    rcases hclaim with hs | ⟨hs, -⟩ <;> simp [AgentRun.claimed, hs]
  | @continued run ledger ledger' w seconds hseconds howner hledger =>
    obtain ⟨n, hn⟩ := hv.2 run rfl
    refine .of_run (hn.heartbeat (leasedOwner_worker howner) hledger rfl rfl rfl ?_)
    rcases leasedOwner_status howner with hs | hs <;> simp [AgentRun.claimed, hs]
  | @renewed run ledger ledger' w seconds hseconds howner hledger =>
    obtain ⟨n, hn⟩ := hv.2 run rfl
    have hworker := leasedOwner_worker howner
    exact .of_run (hn.heartbeat hworker hledger hworker rfl rfl rfl)
  | @released run ledger ledger' w howner hledger =>
    obtain ⟨n, hn⟩ := hv.2 run rfl
    have hworker := leasedOwner_worker (leasedOwner_of_runningOwner howner)
    exact .of_run (hn.finish (.inl hworker) hledger rfl)
  | @terminated run ledger ledger' status errorType errorMessage usage w hterminal hguard hledger =>
      obtain ⟨n, hn⟩ := hv.2 run rfl
      refine .of_run (hn.finish ?_ hledger rfl)
      cases hstatus : run.status <;> simp [terminalGuard, hstatus] at hguard
      · exact .inr (hn.idle (.inl hstatus))
      · exact .inl hguard.1.1
      · exact .inl hguard.1.1
  | @cleared run ledger hterminal hleftover =>
    obtain ⟨n, hn⟩ := hv.2 run rfl
    have hworker := hn.idle (.inr hterminal)
    refine .of_run (n := n) ⟨hn.numbers, fun ha => ?_, fun hne => absurd rfl hne,
      fun ha hopen => ?_, hn.outcome, fun _ => rfl⟩
    · simpa [hworker, AgentRun.leaseCleared] using hn.openIff ha
    · exact absurd hworker ((hn.openIff ha).mp hopen).2
  | @recorded run run' ledger w howner hrecords =>
    obtain ⟨n, hn⟩ := hv.2 run rfl
    refine .of_run (hn.congr ?_ ?_ ?_ ?_)
    · rw [hrecords.same]
    · rw [hrecords.same]
    · rw [hrecords.same]
    · rw [hrecords.same]
      exact hn.idle

theorem closingWrite_viewInv (h : ClosingWrite v v') (hv : ViewInv v) : ViewInv v' := by
  have hasked : ∀ {run : AgentRun}, run.status = .cancelRequested →
      ¬ (run.status = .pending ∨ run.status.isTerminal) := by
    intro run hs
    simp [hs, RunStatus.isTerminal]
  cases h with
  | @cancelledBeforeStart run ledger now hfresh =>
    obtain ⟨n, hn⟩ := hv.2 run rfl
    exact .of_run (hn.congr rfl rfl rfl fun _ =>
      hn.idle (.inl (AgentRun.notStarted_status hfresh)))
  | @cancelAsked run ledger now hlive =>
    obtain ⟨n, hn⟩ := hv.2 run rfl
    exact .of_run (hn.congr rfl rfl rfl fun hidle => absurd hidle (hasked rfl))
  | @treeCancelled run ledger now hfresh =>
    obtain ⟨n, hn⟩ := hv.2 run rfl
    exact .of_run (hn.closeAll rfl _ _ _ _)
  | @treeCancelAsked run ledger now hlive =>
    obtain ⟨n, hn⟩ := hv.2 run rfl
    exact .of_run (hn.congr rfl rfl rfl fun hidle => absurd hidle (hasked rfl))
  | @leaseLost run ledger now hlive =>
    obtain ⟨n, hn⟩ := hv.2 run rfl
    exact .of_run (hn.closeAll rfl _ _ _ _)
  | @storageMigrated run ledger now hlive =>
    obtain ⟨n, hn⟩ := hv.2 run rfl
    exact .of_run (hn.closeAll rfl _ _ _ _)

/-- Every operation keeps the ledger in agreement with the run. -/
theorem effect_viewInv (h : Effect now v v') (hv : ViewInv v) : ViewInv v' := by
  rcases h with hcreate | hwrite | hclose
  · exact createWrite_viewInv hcreate hv
  · exact ownerWrite_viewInv hwrite hv
  · induction hclose with
    | refl => exact hv
    | tail _ hlast ih => exact closingWrite_viewInv hlast ih

/-! ## Closed attempts -/

/-- Closed attempts of the first ledger are unchanged in the second. -/
def KeepsClosed (v v' : RunView) : Prop :=
  ∀ k a, v.ledger k = some a → a.finishedAt ≠ none → v'.ledger k = some a

variable {ledger : Ledger} {k : Nat} {a : AgentRunAttempt}

theorem closeAll_keepsClosed (ha : ledger k = some a) (hclosed : a.finishedAt ≠ none)
    (outcome : AttemptOutcome)
    (errorType errorMessage : Option String) (now : Time) :
    ledger.closeAll outcome errorType errorMessage now k = some a := by
  simp [Ledger.closeAll, ha, hclosed]

theorem updatesOpen_keepsClosed {workerId : Option String}
    {f : AgentRunAttempt → AgentRunAttempt} {ledger' : Ledger}
    (hupdate : Ledger.UpdatesOpen workerId f ledger ledger') (ha : ledger k = some a)
    (hclosed : a.finishedAt ≠ none) : ledger' k = some a := by
  cases hupdate with
  | @latest j hopen hmax =>
    have hne : k ≠ j := by
      rintro rfl
      obtain ⟨b, hb, hfinished, -⟩ := hopen
      rw [ha] at hb
      cases hb
      exact hclosed hfinished
    rw [Function.update_of_ne hne, ha]
  | absent hnone => exact ha

theorem effect_keepsClosed (h : Effect now v v') : KeepsClosed v v' := by
  rcases h with hcreate | hwrite | hclose
  · intro k a ha hclosed
    cases hcreate with
    | created hshape => exact ha
  · intro k a ha hclosed
    cases hwrite with
    | @opened run ledger w seconds m hseconds hlive hclean hclaim hmax =>
      have hne : k ≠ m + 1 := by
        have hle := hmax.1 k a ha
        omega
      simp only [Function.update_of_ne hne]
      exact closeAll_keepsClosed ha hclosed _ _ _ _
    | continued hseconds howner hledger => exact updatesOpen_keepsClosed hledger ha hclosed
    | renewed hseconds howner hledger => exact updatesOpen_keepsClosed hledger ha hclosed
    | released howner hledger => exact updatesOpen_keepsClosed hledger ha hclosed
    | terminated hterminal hguard hledger => exact updatesOpen_keepsClosed hledger ha hclosed
    | cleared hterminal hleftover => exact ha
    | recorded howner hrecords => exact ha
  · induction hclose with
    | refl => exact fun k a ha _ => ha
    | tail _ hlast ih =>
      intro k a ha hclosed
      have hmid := ih k a ha hclosed
      cases hlast with
      | cancelledBeforeStart hfresh => exact hmid
      | cancelAsked hlive => exact hmid
      | treeCancelled hfresh => exact closeAll_keepsClosed hmid hclosed _ _ _ _
      | treeCancelAsked hlive => exact hmid
      | leaseLost hlive => exact closeAll_keepsClosed hmid hclosed _ _ _ _
      | storageMigrated hlive => exact closeAll_keepsClosed hmid hclosed _ _ _ _

theorem exec_keepsClosed (db : Database) (es : List Event) (runId : RunId) :
    KeepsClosed (db.view runId) ((Transition.exec step db es).view runId) :=
  Transition.exec_rel step (R := fun db db' => KeepsClosed (db.view runId) (db'.view runId))
    (fun _ _ _ ha _ => ha) (fun h₁ h₂ k a ha hclosed => h₂ k a (h₁ k a ha hclosed) hclosed)
    (fun db e => effect_keepsClosed (step_effect db e runId)) db es

/-! ## Reachable states -/

theorem exec_viewInv (es : List Event) (runId : RunId) :
    ViewInv ((Transition.exec step Database.empty es).view runId) := by
  refine Transition.exec_invariant step (P := fun db => ViewInv (db.view runId))
    (fun db e h => effect_viewInv (step_effect db e runId) h) ?_ es
  exact ⟨fun _ _ => rfl, fun run hrun => by cases hrun⟩

/-- The numbers of the attempts of a run, row by row. -/
def attemptNumbers (db : Database) (runId : RunId) : List Nat :=
  (db.attempts.rows.filter fun e => e.1.1 = runId).map fun e => e.1.2

theorem attemptNumbers_perm {db : Database} {runId : RunId} {n : Nat}
    (hnumbers : ∀ k, ((db.view runId).ledger k).isSome ↔ 1 ≤ k ∧ k ≤ n) :
    (attemptNumbers db runId).Perm (List.range' 1 n) := by
  refine (List.perm_ext_iff_of_nodup ?_ List.nodup_range').mpr ?_
  · have hkeys : ((db.attempts.rows.filter fun e => e.1.1 = runId).map Prod.fst).Nodup :=
      (List.filter_sublist.map Prod.fst).nodup db.attempts.nodupKeys
    have hmap : attemptNumbers db runId =
        ((db.attempts.rows.filter fun e => e.1.1 = runId).map Prod.fst).map Prod.snd := by
      simp [attemptNumbers, Function.comp_def]
    rw [hmap]
    refine (List.nodup_map_iff_inj_on hkeys).mpr ?_
    intro x hx y hy hxy
    obtain ⟨e, he, rfl⟩ := List.mem_map.mp hx
    obtain ⟨e', he', rfl⟩ := List.mem_map.mp hy
    have hx' : e.1.1 = runId := by simpa using (List.mem_filter.mp he).2
    have hy' : e'.1.1 = runId := by simpa using (List.mem_filter.mp he').2
    exact Prod.ext (hx'.trans hy'.symm) hxy
  · intro k
    have hmem : k ∈ attemptNumbers db runId ↔ ((db.view runId).ledger k).isSome := by
      rw [Option.isSome_iff_exists]
      constructor
      · intro h
        obtain ⟨⟨⟨j, k'⟩, a⟩, he, rfl⟩ := List.mem_map.mp h
        obtain ⟨hrow, hj⟩ := List.mem_filter.mp he
        obtain rfl : j = runId := by simpa using hj
        exact ⟨a, (db.attempts.mem_rows_iff _ _).mp hrow⟩
      · rintro ⟨a, ha⟩
        exact List.mem_map.mpr ⟨((runId, k), a), List.mem_filter.mpr
          ⟨(db.attempts.mem_rows_iff _ _).mpr ha, by simp⟩, rfl⟩
    rw [hmem, hnumbers, List.mem_range'_1]
    omega

/-- In every state reached from empty run tables: the attempts of a run are numbered
`1..n` without gap or duplicate; an attempt is open exactly when it is the last one and
the run has a worker, and then it carries the worker and the lease of the run; a closed
attempt has an outcome and is never written again; a finished run has no open attempt. -/
theorem ledger_agrees (es : List Event) (runId : RunId) :
    ((Transition.exec step Database.empty es).runs.get runId = none →
      attemptNumbers (Transition.exec step Database.empty es) runId = []) ∧
    ∀ run, (Transition.exec step Database.empty es).runs.get runId = some run →
    ∃ n, (attemptNumbers (Transition.exec step Database.empty es) runId).Perm (List.range' 1 n) ∧
      (run.workerId ≠ none ↔ ∃ k a,
        (Transition.exec step Database.empty es).attempts.get (runId, k) = some a ∧
          a.finishedAt = none) ∧
      (∀ k a, (Transition.exec step Database.empty es).attempts.get (runId, k) = some a →
        a.finishedAt = none →
          k = n ∧ run.workerId = some a.workerId ∧ run.heartbeatAt = a.heartbeatAt ∧
            run.leaseExpiresAt = a.leaseExpiresAt ∧ run.status.isTerminal = false) ∧
      ∀ k a, (Transition.exec step Database.empty es).attempts.get (runId, k) = some a →
        a.finishedAt ≠ none → a.outcome ≠ none ∧
          ∀ es', (Transition.exec step Database.empty (es ++ es')).attempts.get (runId, k) =
            some a := by
  refine ⟨fun hnone => ?_, fun run hrun => ?_⟩
  · have hempty := (exec_viewInv es runId).1 hnone
    refine List.perm_nil.mp (attemptNumbers_perm (n := 0) fun k => ?_)
    rw [hempty k]
    simp only [Option.isSome_none, Bool.false_eq_true, false_iff]
    omega
  obtain ⟨n, hn⟩ := (exec_viewInv es runId).2 run hrun
  refine ⟨n, attemptNumbers_perm hn.numbers, ⟨fun hworker => ?_, ?_⟩, ?_, ?_⟩
  · obtain ⟨a, ha⟩ := Option.isSome_iff_exists.mp ((hn.numbers n).mpr ⟨hn.claimed hworker, le_rfl⟩)
    exact ⟨n, a, ha, (hn.openIff ha).mpr ⟨rfl, hworker⟩⟩
  · rintro ⟨k, a, ha, hopen⟩
    exact ((hn.openIff ha).mp hopen).2
  · intro k a ha hopen
    obtain ⟨rfl, hworker⟩ := (hn.openIff ha).mp hopen
    obtain ⟨hw, hheartbeat, hlease⟩ := hn.mirror ha hopen
    refine ⟨rfl, hw, hheartbeat, hlease, ?_⟩
    by_contra hterminal
    exact hworker (hn.idle (.inr (by simpa using hterminal)))
  · intro k a ha hclosed
    refine ⟨hn.outcome ha hclosed, fun es' => ?_⟩
    rw [Transition.exec_append]
    exact exec_keepsClosed _ es' runId k a ha hclosed

end AgentRunRepository
end Yuanlei
