import Yuanlei.Lib.Table
import Yuanlei.Lib.Transition

/-!
# Indexing a knowledge file

The workers of the task queue parse and index a file, and requests delete it.  A worker claims the
file by a compare-and-set on status and lease, and writes its result the same way.  In between it
deletes the old chunks and stores the new ones batch by batch, in PostgreSQL first and in Milvus
second, without looking at the claim again.  All calls are interleaved at their awaits; a worker may
lose its lease at any of them.

Main definitions:

- `IndexState`: the file, its chunks in both stores, and the calls.
- `indexingStep`: one await of a call, or a step of the task queue.
-/

universe u

namespace Yuanlei.KnowledgeIndexing

abbrev TaskId := String
abbrev WorkerId := String
abbrev CallId := Nat

/-! ## State -/

/-- `FileStatus` with the two statuses of older rows. -/
inductive FileStatus where
  | uploaded
  | parsing
  | parsed
  | errorParsing
  | indexing
  | indexed
  | errorIndexing
  | done
  | failed
deriving DecidableEq

/-- The row of the file; `claim` records the call that has claimed it last for indexing. -/
structure FileRow where
  status : FileStatus
  processing : Option (TaskId × WorkerId)
  markdownFile : Bool
  chunkCount : Nat
  tokenCount : Nat
  claim : Option CallId
deriving DecidableEq

/-- The chunks of the file in one store, by their index. -/
abbrev Chunks (α : Type u) :=
  Nat → Option α

/-- The chunks of a list. -/
def contents {α : Type u} (chunks : List α) : Chunks α := fun i =>
  chunks[i]?

/-- The batch of chunks from an index on takes the place of what is stored there. -/
def upsert {α : Type u} (store : Chunks α) (start : Nat) (batch : List α) : Chunks α := fun i =>
  if start ≤ i ∧ i < start + batch.length then batch[i - start]? else store i

/-- Where `index_file` stands. -/
inductive IndexPhase (α : Type u) where
  | claimed (markdownFile : Bool)
  | split (chunks : List α)
  | vectorsDeleted (chunks : List α)
  | rowsDeleted (chunks : List α)
  | storing (chunks : List α) (n : Nat)
  | rowsStored (chunks : List α) (n : Nat)
  | failing
  | raised
  | returned (chunks : List α)
deriving DecidableEq

/-- The call does not go on. -/
def IndexPhase.isFinal {α : Type u} : IndexPhase α → Bool
  | raised => true
  | returned _ => true
  | _ => false

structure IndexCall (α : Type u) where
  task : TaskId
  owner : WorkerId
  phase : IndexPhase α
deriving DecidableEq

/-- Where `delete_file` stands. -/
inductive DeletePhase where
  | started
  | vectorsDeleted
  | rowsDeleted
  | countsReset
  | raised
  | returned
deriving DecidableEq

def DeletePhase.isFinal : DeletePhase → Bool
  | raised => true
  | returned => true
  | _ => false

/-- The file, its chunks in PostgreSQL and in Milvus, and the calls. -/
structure IndexState (α : Type u) where
  file : Option FileRow
  rows : Chunks α
  vectors : Chunks α
  calls : Table CallId (IndexCall α)
  deletions : Table CallId DeletePhase

/-- A file that has been uploaded. -/
def IndexState.initial {α : Type u} : IndexState α where
  file := some
    { status := .uploaded
      processing := none
      markdownFile := false
      chunkCount := 0
      tokenCount := 0
      claim := none }
  rows _ := none
  vectors _ := none
  calls := .empty
  deletions := .empty

/-! ## Writes -/

section Writes

variable {α : Type u}

/-- `update_fields_if_status`: `leaseHeld` says whether the task is running under the
worker's lease. -/
def updateFieldsIfStatus (file : Option FileRow) (allowedStatuses : List FileStatus)
    (owner : Option (TaskId × WorkerId)) (leaseHeld : Bool) (data : FileRow → FileRow) :
    Option FileRow :=
  file.bind fun row =>
    if row.status ∈ allowedStatuses ∧ (owner.isSome → row.processing = owner) ∧ leaseHeld then
      some (data row)
    else none

/-- `update_fields`, without any condition. -/
def updateFields (file : Option FileRow) (data : FileRow → FileRow) : Option FileRow :=
  file.map data

/-- The statuses from which a file can be indexed. -/
def indexableStatuses : List FileStatus :=
  [.parsed, .errorIndexing, .indexed, .done]

/-- The statuses from which a file can be parsed. -/
def parsableStatuses : List FileStatus :=
  [.uploaded, .errorParsing, .failed]

namespace IndexState

def setPhase (σ : IndexState α) (call : CallId) (phase : IndexPhase α) : IndexState α :=
  { σ with calls := σ.calls.modify call fun c => { c with phase } }

def setDeletion (σ : IndexState α) (id : CallId) (phase : DeletePhase) : IndexState α :=
  { σ with deletions := σ.deletions.upsert id phase }

end IndexState

/-- The status and the counts after `_calculate_chunk_stats`. -/
def indexedRow (countTokens : α → Nat) (chunks : List α) (row : FileRow) : FileRow :=
  { row with
    status := .indexed
    processing := none
    chunkCount := chunks.length
    tokenCount := (chunks.map countTokens).sum }

/-- A status without a worker. -/
def releasedRow (status : FileStatus) (row : FileRow) : FileRow :=
  { row with status, processing := none }

def clearedCounts (row : FileRow) : FileRow :=
  { row with chunkCount := 0, tokenCount := 0 }

end Writes

/-! ## Steps -/

/-- One await of a call or a step of the task queue; `leaseHeld` is what the lease check of a
compare-and-set finds. -/
inductive IndexAction (α : Type u) where
  | claim (call : CallId) (task : TaskId) (owner : WorkerId) (leaseHeld : Bool)
  | resume (call : CallId) (leaseHeld : Bool) (chunks : List α)
  | raise (call : CallId)
  | claimParse (task : TaskId) (owner : WorkerId) (leaseHeld : Bool)
  | finishParse (task : TaskId) (owner : WorkerId) (leaseHeld success : Bool)
  | failTask (task : TaskId)
  | startDelete (id : CallId)
  | resumeDelete (id : CallId)
  | raiseDelete (id : CallId)

section Steps

variable {α : Type u} (countTokens : α → Nat) (batchSize : Nat)

/-- `max(int(chunk_batch_size), 1)` chunks of a list, from an index on. -/
def nextBatch (chunks : List α) (n : Nat) : List α :=
  (chunks.drop n).take (max batchSize 1)

/-- The claim of `index_file`. -/
def claimFile (σ : IndexState α) (call : CallId) (task : TaskId) (owner : WorkerId)
    (leaseHeld : Bool) : IndexState α :=
  match updateFieldsIfStatus σ.file indexableStatuses none leaseHeld
      (fun row =>
        { row with status := .indexing, processing := some (task, owner), claim := some call }) with
  | none => σ
  | some row =>
    match σ.calls.insert call { task, owner, phase := .claimed row.markdownFile } with
    | none => σ
    | some calls => { σ with file := some row, calls }

/-- A compare-and-set of a call on its own claim. -/
def writeOwned (σ : IndexState α) (c : IndexCall α) (leaseHeld : Bool)
    (data : FileRow → FileRow) : Option (IndexState α) :=
  (updateFieldsIfStatus σ.file [.indexing] (some (c.task, c.owner)) leaseHeld data).map fun row =>
    { σ with file := some row }

/-- The next await of `index_file`. -/
def resumeCall (σ : IndexState α) (call : CallId) (c : IndexCall α) (leaseHeld : Bool)
    (split : List α) : IndexState α :=
  match c.phase with
  | .claimed true => σ.setPhase call (.split split)
  | .claimed false =>
    ((writeOwned σ c leaseHeld (releasedRow .uploaded)).getD σ).setPhase call .raised
  | .split chunks => { σ with vectors := fun _ => none }.setPhase call (.vectorsDeleted chunks)
  | .vectorsDeleted chunks => { σ with rows := fun _ => none }.setPhase call (.rowsDeleted chunks)
  | .rowsDeleted chunks =>
    { σ with file := updateFields σ.file clearedCounts }.setPhase call (.storing chunks 0)
  | .storing chunks n =>
    if n < chunks.length then
      -- the foreign key of the chunks
      if σ.file.isNone then σ.setPhase call .failing
      else
        { σ with rows := upsert σ.rows n (nextBatch batchSize chunks n) }.setPhase call
          (.rowsStored chunks n)
    else
      match writeOwned σ c leaseHeld (indexedRow countTokens chunks) with
      | some σ' => σ'.setPhase call (.returned chunks)
      | none => σ.setPhase call .failing
  | .rowsStored chunks n =>
    { σ with vectors := upsert σ.vectors n (nextBatch batchSize chunks n) }.setPhase call
      (.storing chunks (n + (nextBatch batchSize chunks n).length))
  | .failing =>
    ((writeOwned σ c leaseHeld (releasedRow .errorIndexing)).getD σ).setPhase call .raised
  | .raised => σ
  | .returned _ => σ

/-- An exception at an await: inside of the `try` block the failure is recorded next. -/
def raiseCall (σ : IndexState α) (call : CallId) (c : IndexCall α) : IndexState α :=
  match c.phase with
  | .claimed false => σ.setPhase call .raised
  | .failing => σ.setPhase call .raised
  | .raised => σ
  | .returned _ => σ
  | _ => σ.setPhase call .failing

/-- `fail_task_processing_in_session` -/
def failTask (task : TaskId) (row : FileRow) : FileRow :=
  if row.processing.map Prod.fst = some task then
    match row.status with
    | .parsing => releasedRow .errorParsing row
    | .indexing => releasedRow .errorIndexing row
    | _ => row
  else row

/-- The next await of `delete_file`; the chunks of a deleted row go with it. -/
def resumeDelete (σ : IndexState α) (id : CallId) : DeletePhase → IndexState α
  | .started => { σ with vectors := fun _ => none }.setDeletion id .vectorsDeleted
  | .vectorsDeleted => { σ with rows := fun _ => none }.setDeletion id .rowsDeleted
  | .rowsDeleted =>
    { σ with file := updateFields σ.file clearedCounts }.setDeletion id .countsReset
  | .countsReset =>
    { σ with file := none, rows := fun _ => none }.setDeletion id .returned
  | .raised => σ
  | .returned => σ

/-- One await of a call, or a step of the task queue. -/
def indexingStep (σ : IndexState α) : IndexAction α → IndexState α
  | .claim call task owner leaseHeld => claimFile σ call task owner leaseHeld
  | .resume call leaseHeld split =>
    match σ.calls.get call with
    | none => σ
    | some c => resumeCall countTokens batchSize σ call c leaseHeld split
  | .raise call =>
    match σ.calls.get call with
    | none => σ
    | some c => raiseCall σ call c
  | .claimParse task owner leaseHeld =>
    match updateFieldsIfStatus σ.file parsableStatuses none leaseHeld
        (fun row => { row with status := .parsing, processing := some (task, owner) }) with
    | none => σ
    | some row => { σ with file := some row }
  | .finishParse task owner leaseHeld success =>
    match updateFieldsIfStatus σ.file [.parsing] (some (task, owner)) leaseHeld
        (fun row =>
          if success then { releasedRow .parsed row with markdownFile := true }
          else releasedRow .errorParsing row) with
    | none => σ
    | some row => { σ with file := some row }
  | .failTask task => { σ with file := updateFields σ.file (failTask task) }
  | .startDelete id =>
    match σ.deletions.insert id .started with
    | none => σ
    | some deletions => { σ with deletions }
  | .resumeDelete id =>
    match σ.deletions.get id with
    | none => σ
    | some phase => resumeDelete σ id phase
  | .raiseDelete id =>
    match σ.deletions.get id with
    | none => σ
    | some phase => if phase.isFinal then σ else σ.setDeletion id .raised

end Steps

end Yuanlei.KnowledgeIndexing
