import Yuanlei.Knowledge.Indexing

/-!
# Fenced indexing

A call that writes chunks has claimed the file, but nothing keeps it from writing after another call
has claimed it.  If every such write finds the file in the call's own claim, and deletions
have the file for themselves, then an indexed file has exactly the chunks of the call that wrote the
status.

Main results:

- `indexed_chunks_of_run`: what holds in every run whose steps all meet the condition.
- `stale_worker_adds_chunks`: a worker that has lost its lease adds chunks to a file that
  another one has indexed.
-/

universe u

namespace Yuanlei.KnowledgeIndexing

variable {α : Type u}

/-! ## The condition -/

/-- The file is still in the claim of a call. -/
def current (σ : IndexState α) (call : CallId) : Bool :=
  σ.file.any fun row => row.status == .indexing && row.claim == some call

/-- The next await of the call writes chunks or counts without a condition. -/
def IndexPhase.writesChunks : IndexPhase α → Bool
  | split _ => true
  | vectorsDeleted _ => true
  | rowsDeleted _ => true
  | storing chunks n => n < chunks.length
  | rowsStored _ _ => true
  | _ => false

/-- The status of a file that is neither being indexed nor indexed. -/
def FileStatus.isNeutral (status : FileStatus) : Bool :=
  status != .indexing && status != .indexed

/-- Chunks are written in the call's own claim, a worker indexes the file for a task in one call at
a time, and a deletion starts on a file that is neither being indexed nor indexed and is not
claimed before the deletion has ended. -/
def meets (σ : IndexState α) : IndexAction α → Bool
  | .claim _ task owner _ =>
    (σ.calls.rows.all fun e => e.2.phase.isFinal || !(e.2.task == task && e.2.owner == owner)) &&
      σ.deletions.rows.all fun e => e.2.isFinal
  | .resume call _ _ =>
    match σ.calls.get call with
    | none => true
    | some c => !c.phase.writesChunks || current σ call
  | .startDelete _ => σ.file.all fun row => row.status.isNeutral
  | _ => true

/-! ## The invariant -/

/-- What a call has stored so far. -/
def Stored (batchSize : Nat) (rows vectors : Chunks α) : IndexPhase α → Prop
  | .vectorsDeleted _ => vectors = contents []
  | .rowsDeleted _ => rows = contents [] ∧ vectors = contents []
  | .storing chunks n => rows = contents (chunks.take n) ∧ vectors = contents (chunks.take n)
  | .rowsStored chunks n =>
    rows = contents (chunks.take (n + (nextBatch batchSize chunks n).length)) ∧
      vectors = contents (chunks.take n)
  | _ => True

/-- What a deletion has cleared so far. -/
def Cleared (rows vectors : Chunks α) : DeletePhase → Prop
  | .vectorsDeleted => vectors = contents []
  | .rowsDeleted => rows = contents [] ∧ vectors = contents []
  | .countsReset => rows = contents [] ∧ vectors = contents []
  | _ => True

/-- The chunks and the counts are those of the call that has written the status. -/
def IndexedBy (countTokens : α → Nat) (σ : IndexState α) (row : FileRow) : Prop :=
  ∃ call c chunks, row.claim = some call ∧ σ.calls.get call = some c ∧
    c.phase = .returned chunks ∧ σ.rows = contents chunks ∧ σ.vectors = contents chunks ∧
    row.chunkCount = chunks.length ∧ row.tokenCount = (chunks.map countTokens).sum

/-- The file is in the claim of a call, and no other call that goes on has its task and worker. -/
def ClaimedBy (batchSize : Nat) (σ : IndexState α) (row : FileRow) : Prop :=
  ∃ call c, row.claim = some call ∧ σ.calls.get call = some c ∧
    row.processing = some (c.task, c.owner) ∧ Stored batchSize σ.rows σ.vectors c.phase ∧
    ∀ call' c', σ.calls.get call' = some c' → c'.phase.isFinal = false → c'.task = c.task →
      c'.owner = c.owner → call' = call

structure IndexInv (countTokens : α → Nat) (batchSize : Nat) (σ : IndexState α) : Prop where
  indexed : ∀ row ∈ σ.file, row.status = .indexed → IndexedBy countTokens σ row
  indexing : ∀ row ∈ σ.file, row.status = .indexing → ClaimedBy batchSize σ row
  deleting : ∀ id phase, σ.deletions.get id = some phase → phase.isFinal = false →
    (∀ row ∈ σ.file, row.status.isNeutral) ∧ Cleared σ.rows σ.vectors phase
  deleted : ∀ id, σ.deletions.get id = some .returned →
    σ.file = none ∧ σ.rows = contents [] ∧ σ.vectors = contents []

section Lemmas

variable {countTokens : α → Nat} {batchSize : Nat}

theorem contents_nil : (contents [] : Chunks α) = fun _ => none := by
  funext i
  simp [contents]

theorem upsert_contents (chunks : List α) (n : Nat) :
    upsert (contents (chunks.take n)) n (nextBatch batchSize chunks n) =
      contents (chunks.take (n + (nextBatch batchSize chunks n).length)) := by
  funext i
  simp only [upsert, contents, nextBatch, List.length_take, List.length_drop]
  by_cases hi : n ≤ i ∧ i < n + min (max batchSize 1) (chunks.length - n)
  · rw [if_pos hi, List.getElem?_take_of_lt (by omega), List.getElem?_drop,
      List.getElem?_take_of_lt (by omega)]
    congr 1
    omega
  · rw [if_neg hi]
    by_cases hn : i < n
    · rw [List.getElem?_take_of_lt hn, List.getElem?_take_of_lt (by omega)]
    · rw [List.getElem?_eq_none (by simp; omega), List.getElem?_eq_none (by simp; omega)]

variable {σ : IndexState α} {call : CallId}

theorem mem_of_current (h : current σ call) :
    ∃ row, σ.file = some row ∧ row.status = .indexing ∧ row.claim = some call := by
  unfold current at h
  cases hfile : σ.file with
  | none => simp [hfile] at h
  | some row =>
    simp only [hfile, Option.any_some, Bool.and_eq_true, beq_iff_eq] at h
    exact ⟨row, rfl, h⟩

theorem isNeutral_iff {status : FileStatus} :
    status.isNeutral ↔ status ≠ .indexing ∧ status ≠ .indexed := by
  simp [FileStatus.isNeutral]

theorem get_setPhase (σ : IndexState α) (call call' : CallId) (phase : IndexPhase α) :
    (σ.setPhase call phase).calls.get call' =
      (σ.calls.get call').map fun c => if call' = call then { c with phase } else c := by
  rw [IndexState.setPhase, Table.get_modify]
  split_ifs
  · rfl
  · simp

variable {phase : IndexPhase α} {c : IndexCall α}

theorem goesOn_of_setPhase {call' : CallId} {c' : IndexCall α} (hcall : σ.calls.get call = some c)
    (hgoes : c.phase.isFinal = false)
    (h : (σ.setPhase call phase).calls.get call' = some c') (hc' : c'.phase.isFinal = false) :
    ∃ c₀, σ.calls.get call' = some c₀ ∧ c₀.phase.isFinal = false ∧ c₀.task = c'.task ∧
      c₀.owner = c'.owner := by
  rw [get_setPhase] at h
  obtain ⟨c₀, hget, rfl⟩ := Option.map_eq_some_iff.mp h
  by_cases heq : call' = call
  · subst heq
    rw [hcall] at hget
    cases hget
    exact ⟨c, hcall, hgoes, by simp⟩
  · rw [if_neg heq] at hc' ⊢
    exact ⟨c₀, hget, hc', rfl, rfl⟩

variable {σ' : IndexState α} {row row' : FileRow}

theorem ClaimedBy.setPhase (h : ClaimedBy batchSize σ row) (hcall : σ.calls.get call = some c)
    (hgoes : c.phase.isFinal = false)
    (hcalls : σ'.calls = (σ.setPhase call phase).calls) (hclaim : row'.claim = row.claim)
    (hprocessing : row'.processing = row.processing)
    (hstored : row.claim = some call → Stored batchSize σ'.rows σ'.vectors phase)
    (hother : row.claim ≠ some call → σ'.rows = σ.rows ∧ σ'.vectors = σ.vectors) :
    ClaimedBy batchSize σ' row' := by
  obtain ⟨owner, c₀, howner, hget, hproc, hst, honly⟩ := h
  have honly' : ∀ call' c', σ'.calls.get call' = some c' → c'.phase.isFinal = false →
      c'.task = c₀.task → c'.owner = c₀.owner → call' = owner := by
    intro call' c' hc' hgoes' htask hown
    rw [hcalls] at hc'
    obtain ⟨c₁, hget₁, hgoes₁, htask₁, hown₁⟩ := goesOn_of_setPhase hcall hgoes hc' hgoes'
    exact honly call' c₁ hget₁ hgoes₁ (htask₁.trans htask) (hown₁.trans hown)
  have hget' := get_setPhase σ call owner phase
  rw [hget, Option.map_some] at hget'
  by_cases heq : owner = call
  · subst heq
    rw [if_pos rfl] at hget'
    refine ⟨owner, { c₀ with phase }, hclaim.trans howner, hcalls ▸ hget',
      hprocessing.trans hproc, hstored howner, honly'⟩
  · rw [if_neg heq] at hget'
    have hne : row.claim ≠ some call := by
      rw [howner]
      simpa using heq
    obtain ⟨hrows, hvectors⟩ := hother hne
    refine ⟨owner, c₀, hclaim.trans howner, hcalls ▸ hget', hprocessing.trans hproc, ?_, honly'⟩
    rw [hrows, hvectors]
    exact hst

/-- A call that has returned is not touched. -/
theorem IndexedBy.setPhase (h : IndexedBy countTokens σ row) (phase : IndexPhase α)
    (hcall : σ.calls.get call = some c) (hgoes : c.phase.isFinal = false) :
    IndexedBy countTokens (σ.setPhase call phase) row := by
  obtain ⟨call', c', chunks, hclaim, hget, hphase, hrest⟩ := h
  have hne : call' ≠ call := by
    rintro rfl
    rw [hcall] at hget
    cases hget
    rw [hphase] at hgoes
    cases hgoes
  have hget' : (σ.setPhase call phase).calls.get call' = some c' := by
    rw [get_setPhase, hget, Option.map_some, if_neg hne]
  exact ⟨call', c', chunks, hclaim, hget', hphase, hrest⟩

/-! ## Steps of a call -/

section

variable (h : IndexInv countTokens batchSize σ)
include h

/-- A call goes on without a write. -/
theorem IndexInv.setPhase (hcall : σ.calls.get call = some c) (hgoes : c.phase.isFinal = false)
    (hfree : ∀ rows vectors : Chunks α, Stored batchSize rows vectors phase) :
    IndexInv countTokens batchSize (σ.setPhase call phase) where
  indexed row hrow hstatus := (h.indexed row hrow hstatus).setPhase phase hcall hgoes
  indexing row hrow hstatus :=
    (h.indexing row hrow hstatus).setPhase hcall hgoes rfl rfl rfl (fun _ => hfree _ _)
      fun _ => ⟨rfl, rfl⟩
  deleting := h.deleting
  deleted := h.deleted

theorem IndexInv.setFile
    {row' : FileRow} (hfile : σ.file = some row) (hneutral : row'.status.isNeutral) :
    IndexInv countTokens batchSize { σ with file := some row' } where
  indexed row₀ hrow hstatus := by
    cases hrow
    exact absurd hstatus (isNeutral_iff.mp hneutral).2
  indexing row₀ hrow hstatus := by
    cases hrow
    exact absurd hstatus (isNeutral_iff.mp hneutral).1
  deleting id phase hid hphase := by
    refine ⟨?_, (h.deleting id phase hid hphase).2⟩
    intro row₀ hrow
    cases hrow
    exact hneutral
  deleted id hid := by
    have hnone := (h.deleted id hid).1
    rw [hfile] at hnone
    cases hnone

theorem IndexInv.no_deletion
    (hfile : σ.file = some row) (hstatus : row.status = .indexing) (id : CallId) :
    σ.deletions.get id ≠ some .returned ∧
      ∀ phase, σ.deletions.get id = some phase → phase.isFinal = true := by
  refine ⟨?_, ?_⟩
  · intro hid
    have hnone := (h.deleted id hid).1
    rw [hfile] at hnone
    cases hnone
  · intro phase hid
    by_contra hphase
    have hneutral := (h.deleting id phase hid (by simpa using hphase)).1 row hfile
    exact (isNeutral_iff.mp hneutral).1 hstatus

theorem IndexInv.write (hcall : σ.calls.get call = some c) (hgoes : c.phase.isFinal = false)
    (hcurrent : current σ call) (hcalls : σ'.calls = (σ.setPhase call phase).calls)
    (hdeletions : σ'.deletions = σ.deletions)
    (hfile : ∀ row, σ.file = some row → ∃ row', σ'.file = some row' ∧ row'.status = row.status ∧
      row'.claim = row.claim ∧ row'.processing = row.processing)
    (hstored : Stored batchSize σ.rows σ.vectors c.phase →
      Stored batchSize σ'.rows σ'.vectors phase) :
    IndexInv countTokens batchSize σ' := by
  obtain ⟨row, hrow, hstatus, hclaim⟩ := mem_of_current hcurrent
  obtain ⟨row', hrow', hstatus', hclaim', hprocessing'⟩ := hfile row hrow
  have hnone := h.no_deletion hrow hstatus
  have hclaimed := h.indexing row hrow hstatus
  have hfits : Stored batchSize σ.rows σ.vectors c.phase := by
    obtain ⟨owner, c₀, howner, hget, -, hst, -⟩ := hclaimed
    rw [hclaim] at howner
    cases howner
    rw [hcall] at hget
    cases hget
    exact hst
  refine ⟨?_, ?_, ?_, ?_⟩
  · intro row₀ hrow₀ hindexed
    rw [hrow'] at hrow₀
    cases hrow₀
    rw [hstatus', hstatus] at hindexed
    cases hindexed
  · intro row₀ hrow₀ _
    rw [hrow'] at hrow₀
    cases hrow₀
    exact hclaimed.setPhase hcall hgoes hcalls hclaim' hprocessing' (fun _ => hstored hfits)
      fun hne => absurd hclaim hne
  · intro id phase' hid hphase'
    rw [hdeletions] at hid
    rw [(hnone id).2 phase' hid] at hphase'
    cases hphase'
  · intro id hid
    rw [hdeletions] at hid
    exact absurd hid (hnone id).1

end

variable {leaseHeld : Bool}

theorem updateFieldsIfStatus_eq_some {file : Option FileRow} {allowed : List FileStatus}
    {owner : Option (TaskId × WorkerId)} {data : FileRow → FileRow}
    (h : updateFieldsIfStatus file allowed owner leaseHeld data = some row') :
    ∃ row, file = some row ∧ row.status ∈ allowed ∧ (owner.isSome → row.processing = owner) ∧
      row' = data row := by
  obtain ⟨row, hfile, hrow⟩ := Option.bind_eq_some_iff.mp h
  split at hrow
  · next hcond =>
      cases hrow
      exact ⟨row, hfile, hcond.1, hcond.2.1, rfl⟩
  · cases hrow

section

variable (h : IndexInv countTokens batchSize σ)
include h

section

variable (hcall : σ.calls.get call = some c)
include hcall

theorem IndexInv.writeOwned_eq_some (hgoes : c.phase.isFinal = false) {data : FileRow → FileRow}
    (hwrite : writeOwned σ c leaseHeld data = some σ') :
    ∃ row, σ.file = some row ∧ row.status = .indexing ∧ row.claim = some call ∧
      Stored batchSize σ.rows σ.vectors c.phase ∧ σ' = { σ with file := some (data row) } := by
  obtain ⟨row', hupdate, rfl⟩ := Option.map_eq_some_iff.mp hwrite
  obtain ⟨row, hfile, hstatus, howner, rfl⟩ := updateFieldsIfStatus_eq_some hupdate
  rw [List.mem_singleton] at hstatus
  obtain ⟨owner, c₀, hclaim, hget, hprocessing, hstored, honly⟩ := h.indexing row hfile hstatus
  have heq := howner rfl
  rw [hprocessing, Option.some.injEq, Prod.mk.injEq] at heq
  have hsame := honly call c hcall hgoes heq.1.symm heq.2.symm
  subst hsame
  rw [hcall] at hget
  cases hget
  exact ⟨row, hfile, hstatus, hclaim, hstored, rfl⟩

theorem IndexInv.release
    (hgoes : c.phase.isFinal = false) {status : FileStatus} (hneutral : status.isNeutral) :
    IndexInv countTokens batchSize
      (((writeOwned σ c leaseHeld (releasedRow status)).getD σ).setPhase call .raised) := by
  cases hwrite : writeOwned σ c leaseHeld (releasedRow status) with
  | none => exact h.setPhase hcall hgoes fun _ _ => trivial
  | some σ' =>
    obtain ⟨row, hfile, -, -, -, rfl⟩ := h.writeOwned_eq_some hcall hgoes hwrite
    have hset : IndexInv countTokens batchSize
        { σ with file := some (releasedRow status row) } := h.setFile hfile hneutral
    exact hset.setPhase hcall hgoes fun _ _ => trivial

theorem IndexInv.finish {chunks : List α}
    {n : Nat} (hphase : c.phase = .storing chunks n) (hn : ¬ n < chunks.length)
    (hwrite : writeOwned σ c leaseHeld (indexedRow countTokens chunks) = some σ') :
    IndexInv countTokens batchSize (σ'.setPhase call (.returned chunks)) := by
  have hgoes : c.phase.isFinal = false := by
    rw [hphase]
    rfl
  obtain ⟨row, hfile, hstatus, hclaim, hstored, rfl⟩ := h.writeOwned_eq_some hcall hgoes hwrite
  rw [hphase, Stored, List.take_of_length_le (not_lt.mp hn)] at hstored
  have hnone := h.no_deletion hfile hstatus
  refine ⟨?_, ?_, ?_, ?_⟩
  · intro row' hrow' _
    cases hrow'
    refine ⟨call, { c with phase := .returned chunks }, chunks, hclaim, ?_, rfl, hstored.1,
      hstored.2, rfl, rfl⟩
    rw [get_setPhase, hcall, Option.map_some, if_pos rfl]
  · intro row' hrow' hindexing
    cases hrow'
    cases hindexing
  · intro id phase' hid hphase'
    rw [(hnone id).2 phase' hid] at hphase'
    cases hphase'
  · intro id hid
    exact absurd hid (hnone id).1

theorem resumeCall_inv (leaseHeld : Bool) (split : List α)
    (hmeets : c.phase.writesChunks → current σ call) :
    IndexInv countTokens batchSize (resumeCall countTokens batchSize σ call c leaseHeld split) := by
  have hsame : ∀ row, σ.file = some row → ∃ row', σ.file = some row' ∧ row'.status = row.status ∧
      row'.claim = row.claim ∧ row'.processing = row.processing := fun row hrow =>
    ⟨row, hrow, rfl, rfl, rfl⟩
  unfold resumeCall
  cases hphase : c.phase with
  | claimed markdownFile =>
    have hgoes : c.phase.isFinal = false := by rw [hphase]; rfl
    cases markdownFile with
    | true => exact h.setPhase hcall hgoes fun _ _ => trivial
    | false => exact h.release hcall hgoes rfl
  | split chunks =>
    have hgoes : c.phase.isFinal = false := by rw [hphase]; rfl
    refine h.write hcall hgoes (hmeets (by rw [hphase]; rfl)) rfl rfl hsame fun _ => ?_
    exact contents_nil.symm
  | vectorsDeleted chunks =>
    have hgoes : c.phase.isFinal = false := by rw [hphase]; rfl
    refine h.write hcall hgoes (hmeets (by rw [hphase]; rfl)) rfl rfl hsame fun hstored => ?_
    rw [hphase] at hstored
    exact ⟨contents_nil.symm, hstored⟩
  | rowsDeleted chunks =>
    have hgoes : c.phase.isFinal = false := by rw [hphase]; rfl
    refine h.write hcall hgoes (hmeets (by rw [hphase]; rfl)) rfl rfl ?_ fun hstored => ?_
    · intro row hrow
      exact ⟨clearedCounts row, by simp [IndexState.setPhase, updateFields, hrow], rfl, rfl, rfl⟩
    · rwa [hphase] at hstored
  | storing chunks n =>
    have hgoes : c.phase.isFinal = false := by rw [hphase]; rfl
    simp only
    split
    · next hn =>
        have hcurrent := hmeets (by rw [hphase]; simpa [IndexPhase.writesChunks] using hn)
        split
        · exact h.setPhase hcall hgoes fun _ _ => trivial
        · refine h.write hcall hgoes hcurrent rfl rfl hsame fun hstored => ?_
          rw [hphase] at hstored
          refine ⟨?_, hstored.2⟩
          simp only [IndexState.setPhase]
          rw [hstored.1, upsert_contents]
    · next hn =>
        split
        · next hwrite => exact h.finish hcall hphase hn hwrite
        · exact h.setPhase hcall hgoes fun _ _ => trivial
  | rowsStored chunks n =>
    have hgoes : c.phase.isFinal = false := by rw [hphase]; rfl
    refine h.write hcall hgoes (hmeets (by rw [hphase]; rfl)) rfl rfl hsame fun hstored => ?_
    rw [hphase] at hstored
    refine ⟨hstored.1, ?_⟩
    simp only [IndexState.setPhase]
    rw [hstored.2, upsert_contents]
  | failing =>
    have hgoes : c.phase.isFinal = false := by rw [hphase]; rfl
    exact h.release hcall hgoes rfl
  | raised => exact h
  | returned chunks => exact h

theorem raiseCall_inv :
    IndexInv countTokens batchSize (raiseCall σ call c) := by
  unfold raiseCall
  cases hphase : c.phase with
  | claimed markdownFile =>
    have hgoes : c.phase.isFinal = false := by rw [hphase]; rfl
    cases markdownFile with
    | true => exact h.setPhase hcall hgoes fun _ _ => trivial
    | false => exact h.setPhase hcall hgoes fun _ _ => trivial
  | raised => exact h
  | returned chunks => exact h
  | _ =>
    have hgoes : c.phase.isFinal = false := by rw [hphase]; rfl
    exact h.setPhase hcall hgoes fun _ _ => trivial

end

/-! ## Claims and the task queue -/

theorem claimFile_inv {task : TaskId} {owner : WorkerId}
    (hmeets : meets σ (.claim call task owner leaseHeld)) :
    IndexInv countTokens batchSize (claimFile σ call task owner leaseHeld) := by
  simp only [meets, Bool.and_eq_true, List.all_eq_true, Bool.or_eq_true, Bool.not_eq_true',
    Bool.and_eq_false_iff, beq_eq_false_iff_ne] at hmeets
  obtain ⟨halone, hdeletions⟩ := hmeets
  unfold claimFile
  split
  · exact h
  · next row' hupdate =>
      obtain ⟨row, hfile, -, -, rfl⟩ := updateFieldsIfStatus_eq_some hupdate
      split
      · exact h
      · next calls hinsert =>
          obtain ⟨hfresh, hget⟩ := Table.get_of_insert hinsert
          refine ⟨?_, ?_, ?_, ?_⟩
          · intro row₀ hrow hstatus
            cases hrow
            cases hstatus
          · intro row₀ hrow _
            cases hrow
            refine ⟨call, { task, owner, phase := .claimed row.markdownFile }, rfl, ?_, rfl,
              trivial, ?_⟩
            · simp [hget]
            · intro call' c' hc' hgoes htask howner
              by_contra hne
              have hold : σ.calls.get call' = some c' := by
                simpa [hget, hne] using hc'
              have hcond := halone (call', c') ((Table.mem_rows_iff _ _ _).mpr hold)
              simp [hgoes, htask, howner] at hcond
          · intro id phase hid hphase
            have hfinal := hdeletions (id, phase) ((Table.mem_rows_iff _ _ _).mpr hid)
            rw [hfinal] at hphase
            cases hphase
          · intro id hid
            have hnone := (h.deleted id hid).1
            rw [hfile] at hnone
            cases hnone

theorem failTask_inv (task : TaskId) :
    IndexInv countTokens batchSize { σ with file := updateFields σ.file (failTask task) } := by
  cases hfile : σ.file with
  | none =>
    have hsame : ({ σ with file := updateFields none (failTask task) } : IndexState α) = σ := by
      rw [updateFields, Option.map_none, ← hfile]
    rw [hsame]
    exact h
  | some row =>
    have hsame : failTask task row = row →
        IndexInv countTokens batchSize { σ with file := some (failTask task row) } := by
      intro heq
      rw [heq, ← hfile]
      exact h
    by_cases htask : row.processing.map Prod.fst = some task
    · cases hstatus : row.status with
      | parsing =>
        refine h.setFile hfile ?_
        simp [failTask, htask, hstatus, releasedRow, isNeutral_iff]
      | indexing =>
        refine h.setFile hfile ?_
        simp [failTask, htask, hstatus, releasedRow, isNeutral_iff]
      | _ => exact hsame (by simp [failTask, htask, hstatus])
    · exact hsame (by simp [failTask, htask])

/-! ## Deletions -/

variable {id : CallId}

theorem startDelete_inv (hmeets : meets σ (.startDelete id)) :
    IndexInv countTokens batchSize (indexingStep countTokens batchSize σ (.startDelete id)) := by
  have hneutral : ∀ row ∈ σ.file, row.status.isNeutral := by
    intro row hrow
    simpa [meets, Option.mem_def.mp hrow] using hmeets
  simp only [indexingStep]
  split
  · exact h
  · next deletions hinsert =>
      obtain ⟨hfresh, hget⟩ := Table.get_of_insert hinsert
      refine ⟨h.indexed, h.indexing, ?_, ?_⟩
      · intro id' phase hid hphase
        by_cases heq : id' = id
        · subst heq
          refine ⟨hneutral, ?_⟩
          simp only [hget, if_true, Option.some.injEq] at hid
          subst hid
          trivial
        · exact h.deleting id' phase (by simpa [hget, heq] using hid) hphase
      · intro id' hid
        by_cases heq : id' = id
        · subst heq
          simp [hget] at hid
        · exact h.deleted id' (by simpa [hget, heq] using hid)

variable {phase : DeletePhase}

theorem IndexInv.clear {phase' : DeletePhase} (hid : σ.deletions.get id = some phase)
    (hgoes : phase.isFinal = false) (hphase' : phase' ≠ .returned)
    (hdeletions : σ'.deletions = σ.deletions.upsert id phase')
    (hfile : ∀ row' ∈ σ'.file, ∃ row ∈ σ.file, row'.status = row.status)
    (hnone : σ.file = none → σ'.file = none) (hrows : σ'.rows = σ.rows ∨ σ'.rows = contents [])
    (hvectors : σ'.vectors = σ.vectors ∨ σ'.vectors = contents [])
    (hcleared : Cleared σ.rows σ.vectors phase → Cleared σ'.rows σ'.vectors phase') :
    IndexInv countTokens batchSize σ' := by
  obtain ⟨hneutral, hclear⟩ := h.deleting id phase hid hgoes
  have hneutral' : ∀ row' ∈ σ'.file, row'.status.isNeutral := by
    intro row' hrow'
    obtain ⟨row, hrow, hstatus⟩ := hfile row' hrow'
    rw [hstatus]
    exact hneutral row hrow
  have hrows' : σ.rows = contents [] → σ'.rows = contents [] := fun hempty =>
    hrows.elim (fun heq => heq.trans hempty) fun heq => heq
  have hvectors' : σ.vectors = contents [] → σ'.vectors = contents [] := fun hempty =>
    hvectors.elim (fun heq => heq.trans hempty) fun heq => heq
  refine ⟨?_, ?_, ?_, ?_⟩
  · intro row' hrow' hstatus
    exact absurd hstatus (isNeutral_iff.mp (hneutral' row' hrow')).2
  · intro row' hrow' hstatus
    exact absurd hstatus (isNeutral_iff.mp (hneutral' row' hrow')).1
  · intro id' phase₀ hid' hgoes'
    refine ⟨hneutral', ?_⟩
    rw [hdeletions, Table.get_upsert] at hid'
    split at hid'
    · cases hid'
      exact hcleared hclear
    · have hold := (h.deleting id' phase₀ hid' hgoes').2
      cases phase₀ with
      | vectorsDeleted => exact hvectors' hold
      | rowsDeleted => exact ⟨hrows' hold.1, hvectors' hold.2⟩
      | countsReset => exact ⟨hrows' hold.1, hvectors' hold.2⟩
      | started => trivial
      | raised => trivial
      | returned => trivial
  · intro id' hid'
    rw [hdeletions, Table.get_upsert] at hid'
    split at hid'
    · cases hid'
      exact absurd rfl hphase'
    · obtain ⟨hgone, hempty, hempty'⟩ := h.deleted id' hid'
      exact ⟨hnone hgone, hrows' hempty, hvectors' hempty'⟩

theorem resumeDelete_inv (hid : σ.deletions.get id = some phase) :
    IndexInv countTokens batchSize (resumeDelete σ id phase) := by
  have hsame : ∀ row' ∈ σ.file, ∃ row ∈ σ.file, row'.status = row.status := fun row hrow =>
    ⟨row, hrow, rfl⟩
  cases phase with
  | started =>
    exact h.clear hid rfl (by simp) rfl hsame (fun hnone => hnone) (.inl rfl)
      (.inr contents_nil.symm) fun _ => contents_nil.symm
  | vectorsDeleted =>
    exact h.clear hid rfl (by simp) rfl hsame (fun hnone => hnone) (.inr contents_nil.symm)
      (.inl rfl) fun hcleared => ⟨contents_nil.symm, hcleared⟩
  | rowsDeleted =>
    refine h.clear hid rfl (by simp) rfl ?_ ?_ (.inl rfl) (.inl rfl) fun hcleared => hcleared
    · intro row' hrow'
      obtain ⟨row, hrow, rfl⟩ := Option.map_eq_some_iff.mp hrow'
      exact ⟨row, hrow, rfl⟩
    · intro hnone
      simp [resumeDelete, IndexState.setDeletion, updateFields, hnone]
  | countsReset =>
    obtain ⟨-, -, hvectors⟩ := h.deleting id .countsReset hid rfl
    refine ⟨nofun, nofun, ?_, fun _ _ => ⟨rfl, contents_nil.symm, hvectors⟩⟩
    intro id' phase hid' hgoes
    refine ⟨nofun, ?_⟩
    cases phase with
    | vectorsDeleted => exact hvectors
    | rowsDeleted => exact ⟨contents_nil.symm, hvectors⟩
    | countsReset => exact ⟨contents_nil.symm, hvectors⟩
    | started => trivial
    | raised => trivial
    | returned => trivial
  | raised => exact h
  | returned => exact h

end

/-! ## Runs -/

theorem indexInv_initial : IndexInv countTokens batchSize (IndexState.initial : IndexState α) where
  indexed row hrow hstatus := by
    cases hrow
    cases hstatus
  indexing row hrow hstatus := by
    cases hrow
    cases hstatus
  deleting id phase hid := by
    simp [IndexState.initial] at hid
  deleted id hid := by
    simp [IndexState.initial] at hid

theorem indexingStep_inv (σ : IndexState α) (a : IndexAction α) (hmeets : meets σ a = true)
    (h : IndexInv countTokens batchSize σ) :
    IndexInv countTokens batchSize (indexingStep countTokens batchSize σ a) := by
  cases a with
  | claim call task owner leaseHeld => exact claimFile_inv h hmeets
  | resume call leaseHeld split =>
    simp only [indexingStep]
    cases hcall : σ.calls.get call with
    | none => exact h
    | some c =>
      refine resumeCall_inv h hcall leaseHeld split fun hwrites => ?_
      simpa [meets, hcall, hwrites] using hmeets
  | raise call =>
    simp only [indexingStep]
    cases hcall : σ.calls.get call with
    | none => exact h
    | some c => exact raiseCall_inv h hcall
  | claimParse task owner leaseHeld =>
    simp only [indexingStep]
    split
    · exact h
    · next row' hupdate =>
        obtain ⟨row, hfile, -, -, rfl⟩ := updateFieldsIfStatus_eq_some hupdate
        exact h.setFile hfile rfl
  | finishParse task owner leaseHeld success =>
    simp only [indexingStep]
    split
    · exact h
    · next row' hupdate =>
        obtain ⟨row, hfile, -, -, rfl⟩ := updateFieldsIfStatus_eq_some hupdate
        exact h.setFile hfile (by cases success <;> rfl)
  | failTask task => exact failTask_inv h task
  | startDelete id => exact startDelete_inv h hmeets
  | resumeDelete id =>
    simp only [indexingStep]
    cases hid : σ.deletions.get id with
    | none => exact h
    | some phase => exact resumeDelete_inv h hid
  | raiseDelete id =>
    simp only [indexingStep]
    cases hid : σ.deletions.get id with
    | none => exact h
    | some phase =>
      simp only
      split
      · exact h
      · next hgoes =>
          exact h.clear hid (by simpa using hgoes) (by simp) rfl
            (fun row hrow => ⟨row, hrow, rfl⟩) (fun hnone => hnone) (.inl rfl) (.inl rfl)
            fun _ => trivial

/-- The owner filter of a call matches the file. -/
def ownerMatches (σ : IndexState α) (c : IndexCall α) : Prop :=
  ∃ row, σ.file = some row ∧ row.status = .indexing ∧ row.processing = some (c.task, c.owner)

/-- The two stores and the file. -/
def IndexState.store (σ : IndexState α) : Option FileRow × Chunks α × Chunks α :=
  (σ.file, σ.rows, σ.vectors)

theorem writeOwned_eq_none (h : ¬ ownerMatches σ c)
    (leaseHeld : Bool) (data : FileRow → FileRow) : writeOwned σ c leaseHeld data = none := by
  cases hwrite : writeOwned σ c leaseHeld data with
  | none => rfl
  | some σ' =>
    obtain ⟨row', hupdate, rfl⟩ := Option.map_eq_some_iff.mp hwrite
    obtain ⟨row, hfile, hstatus, howner, rfl⟩ := updateFieldsIfStatus_eq_some hupdate
    exact absurd ⟨row, hfile, List.mem_singleton.mp hstatus, howner rfl⟩ h

theorem store_resumeCall (h : IndexInv countTokens batchSize σ) (hcall : σ.calls.get call = some c)
    (leaseHeld : Bool) (split : List α)
    (hmeets : c.phase.writesChunks → current σ call) (hlost : ¬ ownerMatches σ c) :
    (resumeCall countTokens batchSize σ call c leaseHeld split).store = σ.store := by
  have hsilent : ¬ c.phase.writesChunks := by
    intro hwrites
    obtain ⟨row, hfile, hstatus, hclaim⟩ := mem_of_current (hmeets hwrites)
    obtain ⟨owner, c₀, howner, hget, hprocessing, -⟩ := h.indexing row hfile hstatus
    rw [hclaim] at howner
    cases howner
    rw [hcall] at hget
    cases hget
    exact hlost ⟨row, hfile, hstatus, hprocessing⟩
  unfold resumeCall
  cases hphase : c.phase with
  | claimed markdownFile =>
    cases markdownFile with
    | true => rfl
    | false =>
      simp only [writeOwned_eq_none hlost]
      rfl
  | storing chunks n =>
    rw [hphase] at hsilent
    have hn : ¬ n < chunks.length := by simpa [IndexPhase.writesChunks] using hsilent
    simp only [hn, if_false, writeOwned_eq_none hlost]
    rfl
  | failing =>
    simp only [writeOwned_eq_none hlost]
    rfl
  | raised => rfl
  | returned chunks => rfl
  | _ =>
    rw [hphase] at hsilent
    exact absurd rfl hsilent

theorem store_raiseCall (σ : IndexState α) (call : CallId) (c : IndexCall α) :
    (raiseCall σ call c).store = σ.store := by
  unfold raiseCall
  split <;> rfl

end Lemmas

/-- In every run whose steps all meet the condition, an indexed file has exactly the chunks of the
call that has written the status and its counts, nothing is left of a file after a deletion has
returned, and a call whose owner filter does not match changes nothing. -/
theorem indexed_chunks_of_run (countTokens : α → Nat) (batchSize : Nat) (as : List (IndexAction α))
    (h : Transition.Guarded (indexingStep countTokens batchSize) (fun σ a => meets σ a = true)
      IndexState.initial as) :
    let σ := Transition.exec (indexingStep countTokens batchSize) IndexState.initial as
    (∀ row ∈ σ.file, row.status = .indexed → IndexedBy countTokens σ row) ∧
      (∀ id, σ.deletions.get id = some .returned →
        σ.file = none ∧ σ.rows = contents [] ∧ σ.vectors = contents []) ∧
      ∀ call c leaseHeld chunks, σ.calls.get call = some c → ¬ ownerMatches σ c →
        (meets σ (.resume call leaseHeld chunks) →
          (indexingStep countTokens batchSize σ (.resume call leaseHeld chunks)).store = σ.store) ∧
        (indexingStep countTokens batchSize σ (.raise call)).store = σ.store := by
  intro σ
  have hinv : IndexInv countTokens batchSize σ :=
    Transition.exec_invariant_of_guarded (indexingStep countTokens batchSize)
      indexingStep_inv indexInv_initial h
  refine ⟨hinv.indexed, hinv.deleted, ?_⟩
  intro call c leaseHeld chunks hcall hlost
  constructor
  · intro hmeets
    simp only [indexingStep, hcall]
    refine store_resumeCall hinv hcall leaseHeld chunks (fun hwrites => ?_) hlost
    simpa [meets, hcall, hwrites] using hmeets
  · simp only [indexingStep, hcall]
    exact store_raiseCall σ call c

/-! ## A worker that comes late -/

/-- The file is parsed. -/
def parsedFile : List (IndexAction String) :=
  [.claimParse "task-0" "worker-0" true, .finishParse "task-0" "worker-0" true true]

/-- A worker claims the file, splits it and deletes the old chunks. -/
def claimedIndexing (call : CallId) (task : TaskId) (owner : WorkerId) (chunks : List String) :
    List (IndexAction String) :=
  .claim call task owner true :: .resume call true chunks :: List.replicate 3 (.resume call true [])

/-- The worker stores one batch and writes the status. -/
def storedBatch (call : CallId) : List (IndexAction String) :=
  List.replicate 3 (.resume call true [])

/-- The second task indexes the file after the first one has been failed. -/
def takenOver : List (IndexAction String) :=
  parsedFile ++ claimedIndexing 1 "task-1" "worker-1" ["first", "second"] ++ [.failTask "task-1"] ++
    claimedIndexing 2 "task-2" "worker-2" ["only"] ++ storedBatch 2

/-- A worker that has lost its lease adds chunks to a file that another one has indexed. -/
theorem stale_worker_adds_chunks :
    ¬ ∀ (countTokens : String → Nat) (batchSize : Nat) (as : List (IndexAction String)),
      let σ := Transition.exec (indexingStep countTokens batchSize) IndexState.initial as
      ∀ row ∈ σ.file, row.status = .indexed → IndexedBy countTokens σ row := by
  intro h
  have hrun := h String.length 40 (takenOver ++ [.resume 1 true []])
  generalize hσ : Transition.exec (indexingStep String.length 40) IndexState.initial
    (takenOver ++ [.resume 1 true []]) = σ at hrun
  have hfile : σ.file.map FileRow.status = some .indexed := by
    rw [← hσ]
    decide +kernel
  obtain ⟨row, hrow, hstatus⟩ := Option.map_eq_some_iff.mp hfile
  obtain ⟨-, -, chunks, -, -, -, hrows, hvectors, -⟩ := hrun row hrow hstatus
  have hstored : σ.rows 1 = some "second" ∧ σ.vectors 1 = none := by
    rw [← hσ]
    decide +kernel
  rw [hrows, hvectors.symm, hstored.2] at hstored
  exact absurd hstored.1 (by simp)

/-- Without the late write the file has the chunks of the second worker. -/
theorem takenOver_indexed :
    Transition.Guarded (indexingStep String.length 40) (fun σ a => meets σ a = true)
        IndexState.initial takenOver ∧
      let σ := Transition.exec (indexingStep String.length 40) IndexState.initial takenOver
      ∀ row ∈ σ.file, row.status = .indexed → IndexedBy String.length σ row := by
  have h : Transition.Guarded (indexingStep String.length 40) (fun σ a => meets σ a = true)
      IndexState.initial takenOver := by
    decide +kernel
  exact ⟨h, (indexed_chunks_of_run String.length 40 takenOver h).1⟩

end Yuanlei.KnowledgeIndexing
