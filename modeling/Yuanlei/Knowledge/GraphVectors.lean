import Yuanlei.Knowledge.GraphTables
import Yuanlei.Lib.Transition

/-!
# Building the vectors of a graph

Workers claim rows, store their vectors in a collection and mark the rows, each in a step of its own.
A deletion takes rows away first and their vectors second, and a reconciliation resets the rows first
and drops the collections second.  The steps of all calls are interleaved.

Main definitions:

- `VectorSystem`: the tables, the collections and the calls.
- `vectorStep`: a transaction of the repository or a call of the vector store.
-/

namespace Yuanlei.KnowledgeGraph

abbrev CallId := Nat

/-! ## State -/

/-- Where `index_vector_batch` stands. -/
inductive BatchPhase where
  | claimed
  | stored
  | failing
  | finished
deriving DecidableEq

/-- A batch of `index_vector_batch`; its lock token is its key. -/
structure Batch where
  recordType : RecordType
  ids : List RecordId
  phase : BatchPhase
deriving DecidableEq

/-- A call of `delete_file_graph` after `delete_file_references`. -/
structure GraphDeletion where
  entityIds : List RecordId
  tripleIds : List RecordId
  vectorsDeleted : Bool
deriving DecidableEq

def GraphDeletion.ids (d : GraphDeletion) : RecordType → List RecordId
  | .entity => d.entityIds
  | .triple => d.tripleIds

/-- The tables, the collections and the calls; a call of `reconcile_vectors` on all vectors has
dropped the collections or not. -/
structure VectorSystem where
  tables : GraphTables
  entityVectors : List RecordId
  tripleVectors : List RecordId
  batches : Table LockToken Batch
  deletions : Table CallId GraphDeletion
  reconciles : Table CallId Bool

namespace VectorSystem

def empty : VectorSystem where
  tables := .empty
  entityVectors := []
  tripleVectors := []
  batches := .empty
  deletions := .empty
  reconciles := .empty

/-- The identifiers in the collection of a record type. -/
def vectors (σ : VectorSystem) : RecordType → List RecordId
  | .entity => σ.entityVectors
  | .triple => σ.tripleVectors

def setPhase (σ : VectorSystem) (token : LockToken) (phase : BatchPhase) : VectorSystem :=
  { σ with batches := σ.batches.modify token fun b => { b with phase } }

def upsertGraphRecords (σ : VectorSystem) (recordType : RecordType) (ids : List RecordId) :
    VectorSystem :=
  match recordType with
  | .entity => { σ with entityVectors := σ.entityVectors ++ ids }
  | .triple => { σ with tripleVectors := σ.tripleVectors ++ ids }

def deleteGraphRecords (σ : VectorSystem) (d : GraphDeletion) : VectorSystem :=
  { σ with
    entityVectors := σ.entityVectors.filter fun id => !d.entityIds.contains id
    tripleVectors := σ.tripleVectors.filter fun id => !d.tripleIds.contains id }

def dropGraphCollections (σ : VectorSystem) : VectorSystem :=
  { σ with entityVectors := [], tripleVectors := [] }

end VectorSystem

/-! ## Steps -/

/-- How an awaited call ends; one that raises may have had its effect. -/
inductive CallOutcome where
  | done
  | raised
  | doneAndRaised
deriving DecidableEq

def CallOutcome.hasEffect : CallOutcome → Bool
  | raised => false
  | _ => true

def CallOutcome.raises : CallOutcome → Bool
  | done => false
  | _ => true

inductive VectorAction where
  | storeChunk (chunk : ChunkId)
  | deleteChunks (file : FileId)
  | upsertChunkGraph (chunk : ChunkId) (extraction : Extraction)
  | markGraphStructureIndexed (chunk : ChunkId)
  | finalize
  | claim (token : LockToken) (recordType : RecordType) (now lease : Time) (limit : Nat)
  | store (token : LockToken) (outcome : CallOutcome)
  | markIndexed (token : LockToken) (outcome : CallOutcome)
  | markFailed (token : LockToken) (now : Time) (error : String)
  | deleteFileReferences (call : CallId) (file : FileId)
  | deleteGraphRecords (call : CallId) (outcome : CallOutcome)
  | reconcile (call : CallId) (now : Time) (allVectors : Bool)
  | dropGraphCollections (call : CallId) (outcome : CallOutcome)

section Steps

variable (g : GraphNaming)

/-- The transaction of a `write_worker`; one that is rolled back changes nothing. -/
def writeTables (σ : VectorSystem) (chunk : ChunkId) (payload : GraphPayload) : VectorSystem :=
  match upsertChunkGraph σ.tables chunk (buildEntityRecords g payload.entities)
      (buildTripleRecords g payload.relations) with
  | none => σ
  | some tables => { σ with tables }

/-- A batch starts with the records that it claims, and there is none without records. -/
def claimBatch (σ : VectorSystem) (token : LockToken) (recordType : RecordType)
    (now lease : Time) (limit : Nat) : VectorSystem :=
  let ids := σ.tables.claimIds recordType now limit
  if ids = [] then σ
  else
    match σ.batches.insert token { recordType, ids, phase := .claimed } with
    | none => σ
    | some batches =>
      { σ with
        batches
        tables := claimVectorRecords σ.tables recordType now lease limit token }

/-- The vectors of a batch are stored, or the failure is recorded next. -/
def storeBatch (σ : VectorSystem) (token : LockToken) (b : Batch) (outcome : CallOutcome) :
    VectorSystem :=
  let σ₁ := if outcome.hasEffect then σ.upsertGraphRecords b.recordType b.ids else σ
  σ₁.setPhase token (if outcome.raises then .failing else .stored)

/-- The rows of a batch are marked, or the failure is recorded next. -/
def markBatchIndexed (σ : VectorSystem) (token : LockToken) (b : Batch) (outcome : CallOutcome) :
    VectorSystem :=
  let σ₁ :=
    if outcome.hasEffect then
      { σ with tables := markVectorRecordsIndexed σ.tables b.recordType b.ids token }
    else σ
  σ₁.setPhase token (if outcome.raises then .failing else .finished)

def markBatchFailed (σ : VectorSystem) (token : LockToken) (b : Batch) (now : Time)
    (error : String) : VectorSystem :=
  { σ with tables := markVectorRecordsFailed σ.tables b.recordType b.ids token now error }.setPhase
    token .finished

/-- The first transaction of `delete_file_graph`. -/
def startDeletion (σ : VectorSystem) (call : CallId) (file : FileId) : VectorSystem :=
  match σ.deletions.insert call
      { entityIds := orphanEntityIds σ.tables file
        tripleIds := orphanTripleIds σ.tables file
        vectorsDeleted := false } with
  | none => σ
  | some deletions => { σ with deletions, tables := deleteFileReferences σ.tables file }

/-- The second step of `delete_file_graph`. -/
def finishDeletion (σ : VectorSystem) (call : CallId) (d : GraphDeletion)
    (outcome : CallOutcome) : VectorSystem :=
  let σ₁ := if outcome.hasEffect then σ.deleteGraphRecords d else σ
  { σ₁ with deletions := σ.deletions.modify call fun d => { d with vectorsDeleted := true } }

/-- The transaction of `reconcile_vectors`. -/
def startReconcile (σ : VectorSystem) (call : CallId) (now : Time) (allVectors : Bool) :
    VectorSystem :=
  -- without `all_vectors` no second step follows
  match σ.reconciles.insert call !allVectors with
  | none => σ
  | some reconciles =>
    { σ with reconciles, tables := reconcileVectorRecords σ.tables now allVectors }

/-- The second step of `reconcile_vectors` on all vectors. -/
def finishReconcile (σ : VectorSystem) (call : CallId) (outcome : CallOutcome) : VectorSystem :=
  let σ₁ := if outcome.hasEffect then σ.dropGraphCollections else σ
  { σ₁ with reconciles := σ.reconciles.modify call fun _ => true }

/-- A transaction of the repository or a call of the vector store. -/
def vectorStep (σ : VectorSystem) : VectorAction → VectorSystem
  | .storeChunk chunk => { σ with tables := storeChunk σ.tables chunk }
  | .deleteChunks file => { σ with tables := deleteChunks σ.tables file }
  | .upsertChunkGraph chunk extraction => writeTables g σ chunk (buildGraphPayload g extraction)
  | .markGraphStructureIndexed chunk =>
    { σ with tables := markGraphStructureIndexed σ.tables chunk }
  | .finalize => { σ with tables := finalizeGraphIndexedChunks σ.tables }
  | .claim token recordType now lease limit => claimBatch σ token recordType now lease limit
  | .store token outcome =>
    match σ.batches.get token with
    | some b => if b.phase = .claimed then storeBatch σ token b outcome else σ
    | none => σ
  | .markIndexed token outcome =>
    match σ.batches.get token with
    | some b => if b.phase = .stored then markBatchIndexed σ token b outcome else σ
    | none => σ
  | .markFailed token now error =>
    match σ.batches.get token with
    | some b => if b.phase = .failing then markBatchFailed σ token b now error else σ
    | none => σ
  | .deleteFileReferences call file => startDeletion σ call file
  | .deleteGraphRecords call outcome =>
    match σ.deletions.get call with
    | some d => if d.vectorsDeleted then σ else finishDeletion σ call d outcome
    | none => σ
  | .reconcile call now allVectors => startReconcile σ call now allVectors
  | .dropGraphCollections call outcome =>
    match σ.reconciles.get call with
    | some dropped => if dropped then σ else finishReconcile σ call outcome
    | none => σ

end Steps

end Yuanlei.KnowledgeGraph
