import Yuanlei.AgentRun.StatusGraph

/-!
# Stamps of a run

`started_at`, `prepared_at` and `first_output_at` are set by three operations
in three transactions.  Each operation checks the stamp before it, and no operation
resets one, so the stamps stay ordered across every mixture of attempts and clocks.

Main results:

- `step_stamped`: one operation keeps the stamps of every run and their order.
- `run_timing`: the stamps of every reachable run are ordered and write-once.
-/

namespace Yuanlei.AgentRunRepository

/-- A set stamp has the one before it, at the same time or earlier. -/
structure Ordered (run : AgentRun) : Prop where
  prepared : ∀ p ∈ run.preparedAt, ∃ s ∈ run.startedAt, s ≤ p
  firstOutput : ∀ o ∈ run.firstOutputAt, ∃ p ∈ run.preparedAt, p ≤ o

/-- The stamps of the first row that are set stay, and their order is kept. -/
structure Stamped (run run' : AgentRun) : Prop where
  started : ∀ s ∈ run.startedAt, s ∈ run'.startedAt
  prepared : ∀ p ∈ run.preparedAt, p ∈ run'.preparedAt
  firstOutput : ∀ o ∈ run.firstOutputAt, o ∈ run'.firstOutputAt
  ordered : Ordered run → Ordered run'

variable {run run' run'' : AgentRun} {now : Time} {v v' : RunView}

theorem Stamped.trans (h : Stamped run run') (h' : Stamped run' run'') : Stamped run run'' where
  started s hs := h'.started s (h.started s hs)
  prepared p hp := h'.prepared p (h.prepared p hp)
  firstOutput o ho := h'.firstOutput o (h.firstOutput o ho)
  ordered hrun := h'.ordered (h.ordered hrun)

/-- A stamp that is set survives the operation that sets it. -/
theorem mem_of_stampSet {preceding stamp stamp' : Option Time}
    (h : StampSet preceding stamp stamp') {t : Time} (ht : t ∈ stamp) : t ∈ stamp' := by
  rcases h with hsame | ⟨hnone, -⟩
  · exact hsame ▸ ht
  · simp [hnone] at ht

theorem le_of_stampSet {preceding stamp stamp' : Option Time} (h : StampSet preceding stamp stamp')
    (hle : ∀ t ∈ stamp, ∃ s ∈ preceding, s ≤ t) : ∀ t ∈ stamp', ∃ s ∈ preceding, s ≤ t := by
  rcases h with rfl | ⟨-, s, hs, t, ht, hst⟩
  · exact hle
  · intro t' ht'
    obtain rfl : t = t' := Option.mem_unique ht ht'
    exact ⟨s, hs, hst⟩

theorem Stamped.of_set (hstarted : ∀ s ∈ run.startedAt, s ∈ run'.startedAt)
    (hprepared : StampSet run.startedAt run.preparedAt run'.preparedAt)
    (houtput : StampSet run.preparedAt run.firstOutputAt run'.firstOutputAt) :
    Stamped run run' where
  started := hstarted
  prepared _ := mem_of_stampSet hprepared
  firstOutput _ := mem_of_stampSet houtput
  ordered hrun := by
    constructor
    · intro p hp
      obtain ⟨s, hs, hle⟩ := le_of_stampSet hprepared hrun.prepared p hp
      exact ⟨s, hstarted s hs, hle⟩
    · intro o ho
      obtain ⟨p, hp, hle⟩ := le_of_stampSet houtput hrun.firstOutput o ho
      exact ⟨p, mem_of_stampSet hprepared hp, hle⟩

theorem Stamped.refl (run : AgentRun) : Stamped run run :=
  .of_set (fun _ h => h) (.inl rfl) (.inl rfl)

theorem claimed_stamped (run : AgentRun) (workerId : String) (leaseSeconds : Int) (now : Time) :
    Stamped run (run.claimed workerId leaseSeconds now) := by
  refine .of_set (fun s hs => ?_) (.inl rfl) (.inl rfl)
  rw [Option.mem_def] at hs
  simp [AgentRun.claimed, hs]

/-! ## Steps and runs -/

theorem ownerWrite_stamped (h : OwnerWrite now v v') : RowRel Stamped v v' := by
  intro run hrun
  cases h with
  | opened | continued =>
    cases hrun
    exact ⟨_, rfl, claimed_stamped run _ _ now⟩
  | renewed | released | terminated | cleared =>
    cases hrun
    exact ⟨_, rfl, .of_set (fun _ hs => hs) (.inl rfl) (.inl rfl)⟩
  | recorded howner hrecords =>
    cases hrun
    refine ⟨_, rfl, ?_⟩
    refine .of_set (fun s hs => ?_) hrecords.prepared hrecords.firstOutput
    rwa [hrecords.same]

theorem closingWrite_stamped (h : ClosingWrite v v') : RowRel Stamped v v' := by
  intro run hrun
  cases h <;> cases hrun <;> exact ⟨_, rfl, .of_set (fun _ hs => hs) (.inl rfl) (.inl rfl)⟩

theorem step_stamped (db : Database) (e : Event) (runId : RunId) :
    RowRel Stamped (db.view runId) ((step db e).view runId) := by
  rcases step_effect db e runId with hcreate | hwrite | hclose
  · intro run hrun
    rw [view_of_get hrun] at hcreate
    cases hcreate
  · exact ownerWrite_stamped hwrite
  · exact rowRel_of_closing .refl .trans closingWrite_stamped hclose

theorem exec_stamped (db : Database) (es : List Event) (runId : RunId) :
    RowRel Stamped (db.view runId) ((Transition.exec step db es).view runId) :=
  Transition.exec_rel step (R := fun db db' => RowRel Stamped (db.view runId) (db'.view runId))
    (fun _ run hrun => ⟨run, hrun, .refl run⟩)
    (fun h₁ h₂ run hrun => by
      obtain ⟨run₁, hrun₁, hs₁⟩ := h₁ run hrun
      obtain ⟨run₂, hrun₂, hs₂⟩ := h₂ run₁ hrun₁
      exact ⟨run₂, hrun₂, hs₁.trans hs₂⟩)
    (fun db e => step_stamped db e runId) db es

theorem step_ordered {db : Database} {runId : RunId}
    (h : ∀ run ∈ db.runs.get runId, Ordered run) (e : Event) :
    ∀ run ∈ (step db e).runs.get runId, Ordered run := by
  intro run' hrun'
  rw [Option.mem_def, ← Database.view_run] at hrun'
  cases hrun : db.runs.get runId with
  | some run =>
    obtain ⟨run₁, hrun₁, hs⟩ := step_stamped db e runId run hrun
    obtain rfl : run₁ = run' := Option.some.inj (hrun₁.symm.trans hrun')
    exact hs.ordered (h run hrun)
  | none =>
    have hview : db.view runId = ⟨none, (db.view runId).ledger⟩ := by simp [Database.view, hrun]
    have heffect := step_effect db e runId
    rw [hview] at heffect
    rcases heffect with hcreate | hwrite | hclose
    · generalize (step db e).view runId = v at hcreate hrun'
      cases hcreate
      cases hrun'
      exact ⟨by simp [CreateRun.row], by simp [CreateRun.row]⟩
    · cases hwrite
    · rcases hclose.cases_head with hsame | ⟨v₁, hfirst, -⟩
      · rw [← hsame] at hrun'
        cases hrun'
      · cases hfirst

/-- In every state that any operations reach under any clock, the stamps of a run that are
set stay as they are whatever happens later, and they are ordered. -/
theorem run_timing (es es' : List Event) (runId : RunId) (run : AgentRun)
    (hrun : (Transition.exec step Database.empty es).runs.get runId = some run) :
    ∃ run', (Transition.exec step Database.empty (es ++ es')).runs.get runId = some run' ∧
      (∀ s ∈ run.startedAt, run'.startedAt = some s) ∧
      (∀ p ∈ run.preparedAt, run'.preparedAt = some p) ∧
      (∀ o ∈ run.firstOutputAt, run'.firstOutputAt = some o) ∧
      (∀ s ∈ run'.startedAt, ∀ p ∈ run'.preparedAt, s ≤ p) ∧
      (∀ p ∈ run'.preparedAt, ∀ o ∈ run'.firstOutputAt, p ≤ o) ∧
      ∀ s ∈ run'.startedAt, ∀ o ∈ run'.firstOutputAt, s ≤ o := by
  obtain ⟨run', hrun', hs⟩ := exec_stamped (Transition.exec step Database.empty es) es' runId run hrun
  rw [← Transition.exec_append] at hrun'
  have hordered : Ordered run' := Transition.exec_invariant step
    (P := fun db => ∀ run ∈ db.runs.get runId, Ordered run)
    (fun db e h => step_ordered h e) (fun _ h => by cases h) (es ++ es') run' hrun'
  have hfirst : ∀ s ∈ run'.startedAt, ∀ p ∈ run'.preparedAt, s ≤ p := by
    intro s hmem p hp
    obtain ⟨s', hs', hle⟩ := hordered.prepared p hp
    exact Option.mem_unique hs' hmem ▸ hle
  have hlast : ∀ p ∈ run'.preparedAt, ∀ o ∈ run'.firstOutputAt, p ≤ o := by
    intro p hp o ho
    obtain ⟨p', hp', hle⟩ := hordered.firstOutput o ho
    exact Option.mem_unique hp' hp ▸ hle
  refine ⟨run', hrun', hs.started, hs.prepared, hs.firstOutput, hfirst, hlast, fun s hmem o ho => ?_⟩
  obtain ⟨p, hp, hle⟩ := hordered.firstOutput o ho
  exact (hfirst s hmem p hp).trans hle

/-- A run that one worker starts and prepares. -/
def preparedRun : List Event :=
  [⟨1, .createRun ⟨"r", "t", none, "a", "u", "q", [], "chat", "web", none, none, none, none, none,
    .chat, none⟩⟩, ⟨2, .markRunning "r" "w" 60⟩, ⟨3, .recordPrepared "r" "w" none⟩]

theorem run_timing_answered :
    ∃ run', (Transition.exec step Database.empty
        (preparedRun ++ [⟨5, .recordFirstOutput "r" "w" (some 4)⟩])).runs.get "r" = some run' ∧
      run'.startedAt = some 2 ∧ run'.preparedAt = some 3 := by
  obtain ⟨run', hrun', hstarted, hprepared, -⟩ := run_timing preparedRun
    [⟨5, .recordFirstOutput "r" "w" (some 4)⟩] "r" _ rfl
  exact ⟨run', hrun', hstarted 2 rfl, hprepared 3 rfl⟩

end Yuanlei.AgentRunRepository
