import Yuanlei.Task.Lifecycle

/-!
# Capacity and deduplication of durable tasks

The advisory lock of `claim` serialises the claims, so that the number of running tasks
that a claim has counted can only have shrunk when it writes.  The dedupe key of a task is
kept by every transaction until the task ends, and then cleared; the unique constraint
does the rest.

Main results:

- `DedupeInv`: two tasks of one type have different keys.
- `task_capacity`: the limit on running tasks and the deduplication, along every run.
-/

namespace Yuanlei

namespace TaskRepository

variable {D : Type}

/-! ## The number of running tasks -/

/-- A transaction in which a claim passes the given `max_running`. -/
def TaskEvent.withMaxRunning (maxRunning : Int) (e : TaskEvent D) : TaskEvent D :=
  { e with
    op := match e.op with
      | .claim taskId workerId leaseSeconds _ =>
        .claim taskId workerId leaseSeconds (some maxRunning)
      | op => op }

variable {e : TaskEvent D} {taskId : TaskId} {row row' : TaskRow} {hook : Option (TaskHook D)}

theorem TaskWrite.running (h : TaskWrite e taskId row row' hook) (hrunning : row'.status = .running) :
    row.status = .running ∨ ∃ workerId leaseSeconds maxRunning,
        e.op = .claim taskId workerId leaseSeconds maxRunning := by
  cases h with
  | claimed hop => exact .inr ⟨_, _, _, hop⟩
  | cancelledAtClaim => cases hrunning
  | cancelIntent hrow => exact .inl hrow
  | cancelled => cases hrunning
  | renewed hlive => exact .inl (isLiveOwner_running hlive)
  | updated _ hlive => exact .inl (isLiveOwner_running hlive)
  | finished _ hlive _ => exact .inl (isLiveOwner_running hlive)
  | released => cases hrunning
  | failedPending => cases hrunning
  | reconciled => cases hrunning

variable {s : TaskStore D}

theorem taskStep_running (hrow' : (taskStep s e).tasks.get taskId = some row')
    (hrunning : row'.status = .running) :
    (∃ row, s.tasks.get taskId = some row ∧ row.status = .running) ∨
      ∃ workerId leaseSeconds maxRunning,
        e.op = .claim taskId workerId leaseSeconds maxRunning := by
  have hwritten := taskStep_write s e
  cases hrow : s.tasks.get taskId with
  | none =>
    obtain ⟨data, -, rfl⟩ := hwritten.fresh taskId row' hrow hrow'
    cases hrunning
  | some row =>
    obtain ⟨row₁, hrow₁, hcase⟩ := hwritten.row taskId row hrow
    rw [hrow'] at hrow₁
    cases hrow₁
    rcases hcase with rfl | ⟨_, hwrite⟩
    · exact .inl ⟨_, rfl, hrunning⟩
    · rcases hwrite.running hrunning with hold | hclaim
      · exact .inl ⟨row, rfl, hold⟩
      · exact .inr hclaim

theorem runningCount_le (hop : ∀ taskId workerId leaseSeconds maxRunning,
      e.op ≠ .claim taskId workerId leaseSeconds maxRunning) :
    runningCount (taskStep s e) ≤ runningCount s := by
  unfold runningCount
  apply Table.countP_le (p := fun row : TaskRow => row.status == .running)
  intro taskId row' hrow' hrunning
  rcases taskStep_running hrow' (by simpa using hrunning) with ⟨row, hrow, hold⟩ | hclaim
  · exact ⟨row, hrow, by simp [hold]⟩
  · obtain ⟨workerId, leaseSeconds, maxRunning, hclaim⟩ := hclaim
    exact absurd hclaim (hop taskId workerId leaseSeconds maxRunning)

variable {workerId : String} {leaseSeconds : Int}

theorem runningCount_claim {maxRunning : Option Int}
    (hop : e.op = .claim taskId workerId leaseSeconds maxRunning) :
    runningCount (taskStep s e) ≤ runningCount s + 1 := by
  unfold runningCount
  apply Table.countP_le_succ (p := fun row : TaskRow => row.status == .running) taskId
  intro j row' hj hrow' hrunning
  rcases taskStep_running hrow' (by simpa using hrunning) with ⟨row, hrow, hold⟩ | hclaim
  · exact ⟨row, hrow, by simp [hold]⟩
  · obtain ⟨workerId', leaseSeconds', maxRunning', hclaim⟩ := hclaim
    rw [hop] at hclaim
    cases hclaim
    exact absurd rfl hj

/-- A claim that finds the limit reached, or that gets no positive limit, writes nothing. -/
theorem claim_of_full {maxRunning : Int} {now : Time} (hfull : maxRunning ≤ runningCount s) :
    s.after (claim s taskId workerId leaseSeconds (some maxRunning) now) = s := by
  unfold claim
  split_ifs
  · rfl
  · rfl
  · rfl
  · rfl
  · simp_all

theorem taskStep_runningCount (maxRunning : Int) (s : TaskStore D) (e : TaskEvent D)
    (h : (runningCount s : Int) ≤ max maxRunning 0) :
    (runningCount (taskStep s (e.withMaxRunning maxRunning)) : Int) ≤ max maxRunning 0 := by
  by_cases hop : ∃ taskId workerId leaseSeconds limit,
      e.op = .claim taskId workerId leaseSeconds limit
  · obtain ⟨taskId, workerId, leaseSeconds, limit, hop⟩ := hop
    have hclaim : (e.withMaxRunning maxRunning).op =
        .claim taskId workerId leaseSeconds (some maxRunning) := by
      simp [TaskEvent.withMaxRunning, hop]
    by_cases hfull : maxRunning ≤ runningCount s
    · have hsame : taskStep s (e.withMaxRunning maxRunning) = s := by
        simp only [taskStep, hclaim]
        exact claim_of_full hfull
      rw [hsame]
      exact h
    · have hle := runningCount_claim (s := s) hclaim
      omega
  · push Not at hop
    have hother : ∀ taskId workerId leaseSeconds limit,
        (e.withMaxRunning maxRunning).op ≠ .claim taskId workerId leaseSeconds limit := by
      intro taskId workerId leaseSeconds limit hclaim
      simp only [TaskEvent.withMaxRunning] at hclaim
      exact hop _ _ _ _ hclaim
    have hle := runningCount_le (s := s) hother
    omega

/-! ## Deduplication -/

/-- Two tasks of one type never have the same dedupe key. -/
structure DedupeInv (s : TaskStore D) : Prop where
  unique : ∀ {taskId taskId' row row' key}, s.tasks.get taskId = some row →
    s.tasks.get taskId' = some row' → row.type = row'.type → row.dedupeKey = some key →
    row'.dedupeKey = some key → taskId = taskId'

/-- A write keeps the type of a task, and its dedupe key or clears it. -/
theorem TaskWrite.dedupe (h : TaskWrite e taskId row row' hook) :
    row'.type = row.type ∧ (row'.dedupeKey = row.dedupeKey ∨ row'.dedupeKey = none) := by
  cases h with
  | claimed | cancelIntent | renewed | updated => exact ⟨rfl, .inl rfl⟩
  | cancelledAtClaim | cancelled | finished | released | failedPending | reconciled =>
    exact ⟨rfl, .inr rfl⟩

theorem create_fresh (hnone : s.tasks.get taskId = none)
    (hrow' : (s.after (create s taskId row)).tasks.get taskId = some row') :
    dedupeConflict s row = false := by
  unfold create at hrow'
  split at hrow'
  · rename_i tasks hinsert
    split_ifs at hinsert with hconflict
    simpa using hconflict
  · have hsame : s.tasks.get taskId = some row' := by
      split at hrow'
      · exact hrow'
      · split at hrow' <;> exact hrow'
    rw [hnone] at hsame
    cases hsame

theorem taskStep_dedupe (s : TaskStore D) (e : TaskEvent D) (h : DedupeInv s) :
    DedupeInv (taskStep s e) where
  unique := by
    intro taskId taskId' row row' key hrow hrow' htype hkey hkey'
    have hwritten := taskStep_write s e
    -- What a row after the step says about the row before it.
    have hback : ∀ {j r}, (taskStep s e).tasks.get j = some r → r.dedupeKey = some key →
        (∃ r₀, s.tasks.get j = some r₀ ∧ r₀.type = r.type ∧ r₀.dedupeKey = some key) ∨
          s.tasks.get j = none ∧ ∃ data, e.op = .create j data ∧ r = data.row e.now := by
      intro j r hr hk
      cases hold : s.tasks.get j with
      | none => exact .inr ⟨rfl, hwritten.fresh j r hold hr⟩
      | some r₀ =>
        obtain ⟨r₁, hr₁, hcase⟩ := hwritten.row j r₀ hold
        rw [hr] at hr₁
        cases hr₁
        rcases hcase with rfl | ⟨_, hwrite⟩
        · exact .inl ⟨_, rfl, rfl, hk⟩
        · obtain ⟨htype, hsame | hnone⟩ := hwrite.dedupe
          · exact .inl ⟨r₀, rfl, htype.symm, hsame ▸ hk⟩
          · rw [hnone] at hk
            cases hk
    -- A new row and an old one with the same key would be a conflict.
    have hfresh : ∀ {j j' r r'}, (taskStep s e).tasks.get j = some r → s.tasks.get j = none →
        (∃ data, e.op = .create j data ∧ r = data.row e.now) → r.dedupeKey = some key →
        s.tasks.get j' = some r' → r'.type = r.type → r'.dedupeKey = some key → False := by
      rintro j j' r r' hr hnone ⟨data, hop, rfl⟩ hk hr' ht hk'
      simp only [taskStep, hop] at hr
      have hconflict := create_fresh hnone hr
      have hmem := (s.tasks.mem_rows_iff j' r').mpr hr'
      unfold dedupeConflict at hconflict
      rw [List.any_eq_false] at hconflict
      exact hconflict (j', r') hmem (by simp [ht, hk, hk'])
    rcases hback hrow hkey with ⟨r₀, hr₀, ht₀, hk₀⟩ | ⟨hnone, hnew⟩
    · rcases hback hrow' hkey' with ⟨r₀', hr₀', ht₀', hk₀'⟩ | ⟨hnone', hnew'⟩
      · exact h.unique hr₀ hr₀' ((ht₀.trans htype).trans ht₀'.symm) hk₀ hk₀'
      · exact (hfresh hrow' hnone' hnew' hkey' hr₀ (ht₀.trans htype) hk₀).elim
    · rcases hback hrow' hkey' with ⟨r₀', hr₀', ht₀', hk₀'⟩ | ⟨hnone', hnew'⟩
      · exact (hfresh hrow hnone hnew hkey hr₀' (ht₀'.trans htype.symm) hk₀').elim
      · obtain ⟨data, hop, -⟩ := hnew
        obtain ⟨data', hop', -⟩ := hnew'
        rw [hop] at hop'
        cases hop'
        rfl

theorem create_existing (h : DedupeInv s) {existingId : TaskId}
    {existing : TaskRow} {key : String} (hexisting : s.tasks.get existingId = some existing)
    (hlive : existing.status.isTerminal = false) (htype : existing.type = row.type)
    (hkey : row.dedupeKey = some key) (hkey' : existing.dedupeKey = some key) (hne : key ≠ "") :
    create s taskId row = .ok ((existingId, existing, false), s) := by
  have hmem := (s.tasks.mem_rows_iff existingId existing).mpr hexisting
  have hconflict : dedupeConflict s row = true := by
    unfold dedupeConflict
    exact List.any_eq_true.mpr ⟨(existingId, existing), hmem, by simp [htype, hkey, hkey']⟩
  have hfound : ∃ e, (s.tasks.rows.find? fun e => e.2.type == row.type &&
      e.2.dedupeKey == some key && !e.2.status.isTerminal) = some e := by
    rw [← Option.isSome_iff_exists, List.find?_isSome]
    exact ⟨(existingId, existing), hmem, by simp [htype, hkey', hlive]⟩
  obtain ⟨⟨foundId, found⟩, hfind⟩ := hfound
  have hfoundMem := (s.tasks.mem_rows_iff foundId found).mp (List.mem_of_find?_eq_some hfind)
  have hprop := List.find?_some hfind
  simp only [Bool.and_eq_true, beq_iff_eq] at hprop
  have hid : foundId = existingId :=
    h.unique hfoundMem hexisting (hprop.1.1.trans htype.symm) hprop.1.2 hkey'
  subst hid
  rw [hexisting] at hfoundMem
  cases hfoundMem
  simp [create, hconflict, hkey, Option.filter, hne, hfind]

/-! ## Along every run -/

/-- Along every run in which the claims pass one `max_running`: the running tasks do not
exceed it; at most one task of a type with a given dedupe key has not ended; and creating a
task with the key of such a task returns it and inserts nothing.  Keys are digests, so they
are never empty. -/
theorem task_capacity (domain : D) (maxRunning : Int) (es : List (TaskEvent D)) :
    let s := Transition.exec (fun s e => taskStep s (e.withMaxRunning maxRunning))
      (emptyStore domain) es
    (0 ≤ maxRunning → (runningCount s : Int) ≤ maxRunning) ∧
    (∀ taskId taskId' row row' key, s.tasks.get taskId = some row →
      s.tasks.get taskId' = some row' → row.status.isTerminal = false →
      row'.status.isTerminal = false → row.type = row'.type → row.dedupeKey = some key →
      row'.dedupeKey = some key → taskId = taskId') ∧
    (∀ existingId existing key, s.tasks.get existingId = some existing →
      existing.status.isTerminal = false → existing.dedupeKey = some key → key ≠ "" →
      ∀ taskId (data : TaskData) now, data.type = existing.type → data.dedupeKey = some key →
        create s taskId (data.row now) = .ok ((existingId, existing, false), s)) := by
  intro s
  have hcount : (runningCount s : Int) ≤ max maxRunning 0 := by
    refine Transition.exec_invariant _
      (P := fun s : TaskStore D => (runningCount s : Int) ≤ max maxRunning 0)
      (taskStep_runningCount maxRunning) ?_ es
    simp [runningCount, emptyStore, Table.empty]
  have hdedupe : DedupeInv s := by
    refine Transition.exec_invariant _ (P := DedupeInv)
      (fun s e => taskStep_dedupe s (e.withMaxRunning maxRunning)) ?_ es
    constructor
    intro taskId taskId' row row' key hrow
    simp [emptyStore] at hrow
  refine ⟨?_, ?_, ?_⟩
  · intro hpos
    rwa [max_eq_left hpos] at hcount
  · intro taskId taskId' row row' key hrow hrow' _ _ htype hkey hkey'
    exact hdedupe.unique hrow hrow' htype hkey hkey'
  · intro existingId existing key hexisting hlive hkey' hne taskId data now htype hkey
    exact create_existing hdedupe hexisting hlive htype.symm hkey hkey' hne

end TaskRepository

end Yuanlei
