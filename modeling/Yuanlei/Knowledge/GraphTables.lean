import Yuanlei.Knowledge.GraphPayload
import Yuanlei.Lib.Table

/-!
# The graph tables of a knowledge base

Chunks mention entities and triples.  Each entity and each triple has one row for the whole knowledge
base, which also says where its vector stands, and one mention for every chunk it was found in.
Mentions are what keeps a row: with the last mention of a triple its row goes, and with the last
mention and the last triple of an entity its row goes.

Main definitions:

- `GraphTables`: the rows of one knowledge base.
- `upsertChunkGraph` and `deleteFileReferences`: the writes of a chunk and the
  clean-up of a file.
-/

universe u

namespace Yuanlei.KnowledgeGraph

abbrev FileId := String
abbrev LockToken := Nat
abbrev Time := Nat

/-- A chunk identifier is the one of the file with the index of the chunk. -/
structure ChunkId where
  file : FileId
  index : Nat
deriving DecidableEq

/-- The first chunk of a file. -/
def sampleChunk (file : FileId) : ChunkId where
  file
  index := 0

/-! ## Rows -/

inductive VectorStatus where
  | pending
  | processing
  | indexed
  | failed
deriving DecidableEq

/-- The vector columns of an entity or a triple. -/
structure VectorState where
  status : VectorStatus
  attemptCount : Nat
  lastError : Option String
  nextRetryAt : Option Time
  lockedUntil : Option Time
  lockToken : Option LockToken
deriving DecidableEq

/-- A row with its own columns and the vector columns. -/
structure GraphRow (β : Type u) where
  body : β
  vector : VectorState
deriving DecidableEq

structure EntityBody where
  normalizedName : String
  label : String
  name : String
  attributes : List EntityAttribute
deriving DecidableEq

structure TripleBody where
  sourceEntityId : RecordId
  targetEntityId : RecordId
  relationType : String
  content : String
deriving DecidableEq

structure ChunkRow where
  graphStructureIndexed : Bool
  graphIndexed : Bool
  extractionResult : Option Extraction
deriving DecidableEq

/-- A record and a chunk that mentions it. -/
abbrev Mention := RecordId × ChunkId

/-- The rows of one knowledge base. -/
structure GraphTables where
  chunks : Table ChunkId ChunkRow
  entities : Table RecordId (GraphRow EntityBody)
  triples : Table RecordId (GraphRow TripleBody)
  entityMentions : List Mention
  tripleMentions : List Mention

def GraphTables.empty : GraphTables where
  chunks := .empty
  entities := .empty
  triples := .empty
  entityMentions := []
  tripleMentions := []

/-! ## Writes of a chunk -/

/-- The vector columns of a new row, and of one that is built again. -/
def VectorState.pending : VectorState where
  status := .pending
  attemptCount := 0
  lastError := none
  nextRetryAt := none
  lockedUntil := none
  lockToken := none

section Upsert

variable {β : Type u}

/-- `ON CONFLICT DO UPDATE` of one row: the vector columns are kept. -/
def upsertRecord (merge : β → β → β) (t : Table RecordId (GraphRow β)) (row : RecordId × β) :
    Table RecordId (GraphRow β) :=
  t.upsert row.1
    (match t.get row.1 with
    | none => { body := row.2, vector := .pending }
    | some r => { r with body := merge r.body row.2 })

/-- One statement cannot update a row twice. -/
def upsertRecords (merge : β → β → β) (t : Table RecordId (GraphRow β))
    (rows : List (RecordId × β)) : Option (Table RecordId (GraphRow β)) :=
  if (rows.map Prod.fst).Nodup then some (rows.foldl (upsertRecord merge) t) else none

end Upsert

/-- `ON CONFLICT DO NOTHING` on the mentions of a chunk. -/
def addMentions (mentions : List Mention) (ids : List RecordId) (chunk : ChunkId) : List Mention :=
  ids.foldl (fun known id => if (id, chunk) ∈ known then known else known ++ [(id, chunk)]) mentions

/-- What an existing entity takes over. -/
def mergeEntity (existing excluded : EntityBody) : EntityBody :=
  { existing with name := excluded.name, attributes := excluded.attributes }

/-- What an existing triple takes over; its endpoints stay. -/
def mergeTriple (existing excluded : TripleBody) : TripleBody :=
  { existing with content := excluded.content, relationType := excluded.relationType }

def entityRow (e : EntityRecord) : RecordId × EntityBody :=
  (e.entityId,
    { normalizedName := e.normalizedName
      label := e.label
      name := e.name
      attributes := e.attributes })

def tripleRow (t : TripleRecord) : RecordId × TripleBody :=
  (t.tripleId,
    { sourceEntityId := t.sourceEntityId
      targetEntityId := t.targetEntityId
      relationType := t.relationType
      content := t.content })

/-- The entities of a chunk and their mentions. -/
def upsertEntities (σ : GraphTables) (chunk : ChunkId) (entities : List EntityRecord) :
    Option GraphTables :=
  if entities = [] then some σ
  else
    (upsertRecords mergeEntity σ.entities (entities.map entityRow)).bind fun table =>
      -- the foreign key of the mentions
      if (σ.chunks.get chunk).isSome then
        some
          { σ with
            entities := table
            entityMentions :=
              addMentions σ.entityMentions (entities.map EntityRecord.entityId) chunk }
      else none

/-- The triples of a chunk and their mentions. -/
def upsertTriples (σ : GraphTables) (chunk : ChunkId) (triples : List TripleRecord) :
    Option GraphTables :=
  if triples = [] then some σ
  else if triples.any fun t =>
      (σ.entities.get t.sourceEntityId).isNone || (σ.entities.get t.targetEntityId).isNone then
    -- the foreign keys of the endpoints
    none
  else
    (upsertRecords mergeTriple σ.triples (triples.map tripleRow)).bind fun table =>
      if (σ.chunks.get chunk).isSome then
        some
          { σ with
            triples := table
            tripleMentions :=
              addMentions σ.tripleMentions (triples.map TripleRecord.tripleId) chunk }
      else none

/-- `upsert_chunk_graph`: one transaction, `none` when it is rolled back. -/
def upsertChunkGraph (σ : GraphTables) (chunk : ChunkId) (entities : List EntityRecord)
    (triples : List TripleRecord) : Option GraphTables :=
  (upsertEntities σ chunk entities).bind fun σ' => upsertTriples σ' chunk triples

def markGraphStructureIndexed (σ : GraphTables) (chunk : ChunkId) : GraphTables :=
  { σ with chunks := σ.chunks.modify chunk fun r => { r with graphStructureIndexed := true } }

def updateExtractionResult (σ : GraphTables) (chunk : ChunkId) (result : Extraction) :
    GraphTables :=
  { σ with chunks := σ.chunks.modify chunk fun r => { r with extractionResult := some result } }

/-- `batch_upsert` of a chunk of the indexing: the flag of the structure is not written. -/
def storeChunk (σ : GraphTables) (chunk : ChunkId) : GraphTables :=
  { σ with
    chunks := σ.chunks.upsert chunk
      { graphStructureIndexed := ((σ.chunks.get chunk).map (·.graphStructureIndexed)).getD false
        graphIndexed := false
        extractionResult := none } }

/-! ## Clean-up of a file -/

/-- `count_graph_indexed_by_file_id` -/
def countGraphIndexed (σ : GraphTables) (file : FileId) : Nat :=
  (σ.chunks.rows.filter fun e => e.1.file == file && e.2.graphIndexed).length

/-- A record of a file that has no mention left. -/
def isOrphan (before after : List Mention) (file : FileId) (id : RecordId) : Bool :=
  before.any (fun m => m.1 == id && m.2.file == file) && !after.any (fun m => m.1 == id)

/-- The mentions of the other files. -/
def mentionsOfOthers (mentions : List Mention) (file : FileId) : List Mention :=
  mentions.filter fun m => m.2.file != file

/-- A triple has the entity at one of its ends. -/
def hasTriple (triples : Table RecordId (GraphRow TripleBody)) (id : RecordId) : Bool :=
  triples.rows.any fun e => e.2.body.sourceEntityId == id || e.2.body.targetEntityId == id

def orphanTripleIds (σ : GraphTables) (file : FileId) : List RecordId :=
  let mentions := mentionsOfOthers σ.tripleMentions file
  σ.triples.keys.filter (isOrphan σ.tripleMentions mentions file)

/-- The triples after their orphans have been deleted. -/
def remainingTriples (σ : GraphTables) (file : FileId) : Table RecordId (GraphRow TripleBody) :=
  σ.triples.restrict fun id => !(orphanTripleIds σ file).contains id

def orphanEntityIds (σ : GraphTables) (file : FileId) : List RecordId :=
  let mentions := mentionsOfOthers σ.entityMentions file
  σ.entities.keys.filter fun id =>
    isOrphan σ.entityMentions mentions file id && !hasTriple (remainingTriples σ file) id

/-- `delete_file_references`; it returns `orphanEntityIds` and `orphanTripleIds`. -/
def deleteFileReferences (σ : GraphTables) (file : FileId) : GraphTables where
  chunks := σ.chunks
  entities := σ.entities.restrict fun id => !(orphanEntityIds σ file).contains id
  triples := remainingTriples σ file
  entityMentions := mentionsOfOthers σ.entityMentions file
  tripleMentions := mentionsOfOthers σ.tripleMentions file

/-- `KnowledgeChunkRepository.delete_by_file_id`; the mentions of a deleted chunk go with it. -/
def deleteChunks (σ : GraphTables) (file : FileId) : GraphTables :=
  let kept := σ.chunks.restrict fun chunk => chunk.file != file
  let isKept (m : Mention) : Bool := (kept.get m.2).isSome
  { σ with
    chunks := kept
    entityMentions := σ.entityMentions.filter isKept
    tripleMentions := σ.tripleMentions.filter isKept }

/-- `KnowledgeGraphRepository.delete_by_kb_id` -/
def deleteGraphRows (σ : GraphTables) : GraphTables :=
  { GraphTables.empty with chunks := σ.chunks }

/-- `reset_graph_state_by_kb_id` -/
def resetGraphState (σ : GraphTables) (clearExtractionResult : Bool) : GraphTables :=
  { σ with
    chunks := σ.chunks.mapRows fun _ r =>
      { graphStructureIndexed := false
        graphIndexed := false
        extractionResult := if clearExtractionResult then none else r.extractionResult } }

/-! ## Work on vectors -/

def vectorMaxAttempts : Nat := 3

namespace VectorState

/-- The `claimable` condition of `claim_vector_records`. -/
def isClaimable (now : Time) (v : VectorState) : Bool :=
  match v.status with
  | .pending => v.nextRetryAt.all (· ≤ now)
  | .processing => v.lockedUntil.any (· < now)
  | _ => false

def claim (now lease : Time) (token : LockToken) (v : VectorState) : VectorState :=
  { v with
    status := .processing
    attemptCount := v.attemptCount + 1
    lockedUntil := some (now + lease)
    lockToken := some token
    lastError := none }

def markIndexed (v : VectorState) : VectorState :=
  { v with
    status := .indexed
    lastError := none
    nextRetryAt := none
    lockedUntil := none
    lockToken := none }

def markFailed (now : Time) (error : String) (v : VectorState) : VectorState :=
  { v with
    status := if vectorMaxAttempts ≤ v.attemptCount then .failed else .pending
    lastError := some (String.ofList (error.toList.take 4000))
    nextRetryAt :=
      if v.attemptCount = 1 then some (now + 5)
      else if v.attemptCount = 2 then some (now + 30)
      else none
    lockedUntil := none
    lockToken := none }

/-- The rows that `reconcile_vector_records` builds again. -/
def isReconciled (now : Time) (allVectors : Bool) (v : VectorState) : Bool :=
  allVectors ||
    match v.status with
    | .failed => true
    | .processing => v.lockedUntil.any (· < now)
    | _ => false

end VectorState

section Records

variable {β : Type u}

/-- Update the vector columns of the rows with a property. -/
def updateVectors (t : Table RecordId (GraphRow β)) (p : RecordId → VectorState → Bool)
    (f : VectorState → VectorState) : Table RecordId (GraphRow β) :=
  t.mapRows fun id r => if p id r.vector then { r with vector := f r.vector } else r

/-- The records that the next claim takes, in the order of their rows. -/
def claimIds (t : Table RecordId (GraphRow β)) (now : Time) (limit : Nat) : List RecordId :=
  (t.keysWith fun r => r.vector.isClaimable now).take (max limit 1)

/-- `reconcile_vector_records` on one of the two tables. -/
def reconcileRecords (t : Table RecordId (GraphRow β)) (now : Time) (allVectors : Bool) :
    Table RecordId (GraphRow β) :=
  updateVectors t (fun _ v => v.isReconciled now allVectors) fun _ => .pending

/-- A chunk mentions a record that is not indexed. -/
def hasNotIndexed (t : Table RecordId (GraphRow β)) (mentions : List Mention) (chunk : ChunkId) :
    Bool :=
  mentions.any fun m => m.2 == chunk && (t.get m.1).any fun r => r.vector.status != .indexed

end Records

/-- `_vector_model`: one of the two tables. -/
inductive RecordType where
  | entity
  | triple
deriving DecidableEq

namespace GraphTables

def updateVectors (σ : GraphTables) (recordType : RecordType)
    (p : RecordId → VectorState → Bool) (f : VectorState → VectorState) : GraphTables :=
  match recordType with
  | .entity => { σ with entities := KnowledgeGraph.updateVectors σ.entities p f }
  | .triple => { σ with triples := KnowledgeGraph.updateVectors σ.triples p f }

def claimIds (σ : GraphTables) (recordType : RecordType) (now : Time) (limit : Nat) :
    List RecordId :=
  match recordType with
  | .entity => KnowledgeGraph.claimIds σ.entities now limit
  | .triple => KnowledgeGraph.claimIds σ.triples now limit

end GraphTables

/-- `claim_vector_records`; it returns `claimIds`. -/
def claimVectorRecords (σ : GraphTables) (recordType : RecordType) (now lease : Time)
    (limit : Nat) (token : LockToken) : GraphTables :=
  σ.updateVectors recordType (fun id _ => (σ.claimIds recordType now limit).contains id)
    (.claim now lease token)

/-- The rows that are still claimed by a token. -/
def isHeld (ids : List RecordId) (token : LockToken) (id : RecordId) (v : VectorState) : Bool :=
  ids.contains id && v.lockToken == some token

def markVectorRecordsIndexed (σ : GraphTables) (recordType : RecordType) (ids : List RecordId)
    (token : LockToken) : GraphTables :=
  σ.updateVectors recordType (isHeld ids token) .markIndexed

def markVectorRecordsFailed (σ : GraphTables) (recordType : RecordType) (ids : List RecordId)
    (token : LockToken) (now : Time) (error : String) : GraphTables :=
  σ.updateVectors recordType (isHeld ids token) (.markFailed now error)

def reconcileVectorRecords (σ : GraphTables) (now : Time) (allVectors : Bool) : GraphTables :=
  { σ with
    entities := reconcileRecords σ.entities now allVectors
    triples := reconcileRecords σ.triples now allVectors
    chunks :=
      if allVectors then σ.chunks.mapRows fun _ r => { r with graphIndexed := false }
      else σ.chunks }

def finalizeGraphIndexedChunks (σ : GraphTables) : GraphTables :=
  { σ with
    chunks := σ.chunks.mapRows fun chunk r =>
      if r.graphStructureIndexed && !r.graphIndexed &&
          !hasNotIndexed σ.entities σ.entityMentions chunk &&
          !hasNotIndexed σ.triples σ.tripleMentions chunk then
        { r with graphIndexed := true }
      else r }

/-! ## Rows after a write -/

section Rows

variable {β : Type u}

theorem get_upsertRecord (merge : β → β → β) (t : Table RecordId (GraphRow β))
    (row : RecordId × β) (id : RecordId) :
    (upsertRecord merge t row).get id =
      if id = row.1 then
        some (match t.get row.1 with
          | none => { body := row.2, vector := .pending }
          | some r => { r with body := merge r.body row.2 })
      else t.get id := by
  rw [upsertRecord, Table.get_upsert]

variable {merge : β → β → β} {rows : List (RecordId × β)} {id : RecordId} {r : GraphRow β}
  (t : Table RecordId (GraphRow β))

/-- A row that is there keeps its vector columns, and keeps what no update changes. -/
theorem get_foldl_upsertRecord_of_some {K : β → Prop} (hget : t.get id = some r) (hbody : K r.body)
    (hmerge : ∀ b, K b → ∀ row ∈ rows, row.1 = id → K (merge b row.2)) :
    ∃ b, (rows.foldl (upsertRecord merge) t).get id = some { r with body := b } ∧ K b := by
  induction rows generalizing t r with
  | nil => exact ⟨r.body, hget, hbody⟩
  | cons row rows ih =>
    rw [List.foldl_cons]
    have hrest : ∀ b, K b → ∀ row' ∈ rows, row'.1 = id → K (merge b row'.2) :=
      fun b hb row' hrow' => hmerge b hb row' (List.mem_cons_of_mem _ hrow')
    by_cases hid : id = row.1
    · have hhead := hmerge r.body hbody row (List.mem_cons_self ..) hid.symm
      have hnew : (upsertRecord merge t row).get id =
          some { r with body := merge r.body row.2 } := by
        rw [get_upsertRecord, if_pos hid, ← hid, hget]
      obtain ⟨b, hb, hkeep⟩ := ih _ hnew hhead hrest
      exact ⟨b, hb, hkeep⟩
    · have hsame : (upsertRecord merge t row).get id = some r := by
        rw [get_upsertRecord, if_neg hid, hget]
      exact ih _ hsame hbody hrest

theorem get_foldl_upsertRecord_of_none (hnodup : (rows.map Prod.fst).Nodup)
    (t : Table RecordId (GraphRow β)) (hnone : t.get id = none)
    (hget : (rows.foldl (upsertRecord merge) t).get id = some r) :
    (id, r.body) ∈ rows ∧ r.vector = .pending := by
  induction rows generalizing t with
  | nil =>
    rw [List.foldl_nil, hnone] at hget
    cases hget
  | cons row rows ih =>
    rw [List.foldl_cons] at hget
    rw [List.map_cons, List.nodup_cons] at hnodup
    by_cases hid : id = row.1
    · have hnew : (upsertRecord merge t row).get id =
          some { body := row.2, vector := .pending } := by
        rw [get_upsertRecord, if_pos hid, ← hid, hnone]
      have hkeep : ∀ b, b = row.2 → ∀ row' ∈ rows, row'.1 = id → merge b row'.2 = row.2 := by
        intro b _ row' hrow' heq
        exact absurd (List.mem_map_of_mem (f := Prod.fst) hrow') (by rw [heq, hid]; exact hnodup.1)
      obtain ⟨b, hb, rfl⟩ :=
        get_foldl_upsertRecord_of_some (K := fun b => b = row.2) _ hnew rfl hkeep
      rw [hb] at hget
      cases hget
      simp [hid]
    · have hsame : (upsertRecord merge t row).get id = none := by
        rw [get_upsertRecord, if_neg hid, hnone]
      obtain ⟨hmem, hvector⟩ := ih hnodup.2 _ hsame hget
      exact ⟨List.mem_cons_of_mem _ hmem, hvector⟩

/-- Every given row is there afterwards. -/
theorem isSome_foldl_upsertRecord (merge : β → β → β) (rows : List (RecordId × β))
    (t : Table RecordId (GraphRow β)) (h : (t.get id).isSome ∨ id ∈ rows.map Prod.fst) :
    ((rows.foldl (upsertRecord merge) t).get id).isSome := by
  induction rows generalizing t with
  | nil => simpa using h
  | cons row rows ih =>
    rw [List.foldl_cons]
    apply ih
    rw [get_upsertRecord]
    by_cases hid : id = row.1
    · simp [hid]
    · simpa [hid] using h

theorem get_updateVectors (p : RecordId → VectorState → Bool)
    (f : VectorState → VectorState) (id : RecordId) :
    (updateVectors t p f).get id = (t.get id).map fun r =>
      if p id r.vector then { r with vector := f r.vector } else r := by
  rw [updateVectors, Table.get_mapRows]

end Rows

variable (mentions : List Mention)

theorem mem_addMentions (ids : List RecordId) (chunk : ChunkId) (m : Mention) :
    m ∈ addMentions mentions ids chunk ↔ m ∈ mentions ∨ m.1 ∈ ids ∧ m.2 = chunk := by
  unfold addMentions
  induction ids generalizing mentions with
  | nil => simp
  | cons id ids ih =>
    rw [List.foldl_cons, ih]
    by_cases hm : m = (id, chunk)
    · subst hm
      split <;> simp_all
    · have hne : ¬ (m.1 = id ∧ m.2 = chunk) := fun h => hm (Prod.ext h.1 h.2)
      split <;> simp only [List.mem_append, List.mem_cons] <;> tauto

@[simp]
theorem mem_mentionsOfOthers (file : FileId) (m : Mention) :
    m ∈ mentionsOfOthers mentions file ↔ m ∈ mentions ∧ m.2.file ≠ file := by
  simp [mentionsOfOthers]

/-! ## The tables after a chunk has been written -/

/-- The write of the entities of a chunk. -/
structure EntitiesUpserted (σ σ' : GraphTables) (chunk : ChunkId) (entities : List EntityRecord) :
    Prop where
  chunks : σ'.chunks = σ.chunks
  triples : σ'.triples = σ.triples
  tripleMentions : σ'.tripleMentions = σ.tripleMentions
  mentions : ∀ m, m ∈ σ'.entityMentions ↔
    m ∈ σ.entityMentions ∨ m.1 ∈ entities.map EntityRecord.entityId ∧ m.2 = chunk
  chunkExists : entities ≠ [] → (σ.chunks.get chunk).isSome
  isSome : ∀ id, (σ.entities.get id).isSome ∨ id ∈ entities.map EntityRecord.entityId →
    (σ'.entities.get id).isSome
  kept : ∀ id r, σ.entities.get id = some r → ∃ b, σ'.entities.get id = some { r with body := b }
  fresh : ∀ id r, σ.entities.get id = none → σ'.entities.get id = some r → r.vector = .pending

variable {σ σ' : GraphTables} {chunk : ChunkId} {entities : List EntityRecord}

theorem upsertEntities_eq_some (h : upsertEntities σ chunk entities = some σ') :
    ((entities.map entityRow).map Prod.fst).Nodup ∧
    (entities ≠ [] → (σ.chunks.get chunk).isSome) ∧
    σ' = { σ with
      entities := (entities.map entityRow).foldl (upsertRecord mergeEntity) σ.entities
      entityMentions := addMentions σ.entityMentions (entities.map EntityRecord.entityId) chunk } := by
  by_cases hnil : entities = []
  · subst hnil
    cases h
    exact ⟨List.nodup_nil, fun hne => absurd rfl hne, rfl⟩
  · rw [upsertEntities, if_neg hnil, upsertRecords] at h
    split_ifs at h with hnodup hchunk
    · cases h
      exact ⟨hnodup, fun _ => hchunk, rfl⟩
    all_goals cases h

theorem entitiesUpserted_of_some (h : upsertEntities σ chunk entities = some σ') :
    EntitiesUpserted σ σ' chunk entities := by
  obtain ⟨hnodup, hchunk, rfl⟩ := upsertEntities_eq_some h
  exact
    { chunks := rfl
      triples := rfl
      tripleMentions := rfl
      mentions := fun m => mem_addMentions _ _ _ _
      chunkExists := hchunk
      isSome := by
        intro id hid
        apply isSome_foldl_upsertRecord
        rw [List.map_map]
        exact hid
      kept := by
        intro id r hget
        have hmerge : ∀ b : EntityBody, True → ∀ row ∈ entities.map entityRow, row.1 = id →
            (fun _ => True) (mergeEntity b row.2) := fun _ _ _ _ _ => trivial
        obtain ⟨b, hb, -⟩ :=
          get_foldl_upsertRecord_of_some (K := fun _ => True) _ hget trivial hmerge
        exact ⟨b, hb⟩
      fresh := fun id r hnone hget => (get_foldl_upsertRecord_of_none hnodup _ hnone hget).2 }

/-- The write of the triples of a chunk. -/
structure TriplesUpserted (σ σ' : GraphTables) (chunk : ChunkId) (triples : List TripleRecord) :
    Prop where
  chunks : σ'.chunks = σ.chunks
  entities : σ'.entities = σ.entities
  entityMentions : σ'.entityMentions = σ.entityMentions
  mentions : ∀ m, m ∈ σ'.tripleMentions ↔
    m ∈ σ.tripleMentions ∨ m.1 ∈ triples.map TripleRecord.tripleId ∧ m.2 = chunk
  chunkExists : triples ≠ [] → (σ.chunks.get chunk).isSome
  isSome : ∀ id, (σ.triples.get id).isSome ∨ id ∈ triples.map TripleRecord.tripleId →
    (σ'.triples.get id).isSome
  kept : ∀ id r, σ.triples.get id = some r → ∃ b, σ'.triples.get id = some { r with body := b } ∧
    b.sourceEntityId = r.body.sourceEntityId ∧ b.targetEntityId = r.body.targetEntityId
  fresh : ∀ id r, σ.triples.get id = none → σ'.triples.get id = some r →
    r.vector = .pending ∧ ∃ t ∈ triples, t.tripleId = id ∧
      t.sourceEntityId = r.body.sourceEntityId ∧ t.targetEntityId = r.body.targetEntityId

variable {triples : List TripleRecord}

theorem upsertTriples_eq_some (h : upsertTriples σ chunk triples = some σ') :
    ((triples.map tripleRow).map Prod.fst).Nodup ∧
    (triples ≠ [] → (σ.chunks.get chunk).isSome) ∧
    σ' = { σ with
      triples := (triples.map tripleRow).foldl (upsertRecord mergeTriple) σ.triples
      tripleMentions := addMentions σ.tripleMentions (triples.map TripleRecord.tripleId) chunk } := by
  by_cases hnil : triples = []
  · subst hnil
    cases h
    exact ⟨List.nodup_nil, fun hne => absurd rfl hne, rfl⟩
  · rw [upsertTriples, if_neg hnil, upsertRecords] at h
    split_ifs at h with hkeys hnodup hchunk
    · cases h
      exact ⟨hnodup, fun _ => hchunk, rfl⟩
    all_goals cases h

theorem triplesUpserted_of_some (h : upsertTriples σ chunk triples = some σ') :
    TriplesUpserted σ σ' chunk triples := by
  obtain ⟨hnodup, hchunk, rfl⟩ := upsertTriples_eq_some h
  exact
    { chunks := rfl
      entities := rfl
      entityMentions := rfl
      mentions := fun m => mem_addMentions _ _ _ _
      chunkExists := hchunk
      isSome := by
        intro id hid
        apply isSome_foldl_upsertRecord
        rw [List.map_map]
        exact hid
      kept := by
        intro id r hget
        have hmerge : ∀ b, b.sourceEntityId = r.body.sourceEntityId ∧
            b.targetEntityId = r.body.targetEntityId → ∀ row ∈ triples.map tripleRow, row.1 = id →
              (mergeTriple b row.2).sourceEntityId = r.body.sourceEntityId ∧
                (mergeTriple b row.2).targetEntityId = r.body.targetEntityId := fun b hb _ _ _ => hb
        exact get_foldl_upsertRecord_of_some
          (K := fun b => b.sourceEntityId = r.body.sourceEntityId ∧
            b.targetEntityId = r.body.targetEntityId) _ hget ⟨rfl, rfl⟩ hmerge
      fresh := by
        intro id r hnone hget
        obtain ⟨hrow, hvector⟩ := get_foldl_upsertRecord_of_none hnodup _ hnone hget
        obtain ⟨t, ht, heq⟩ := List.mem_map.mp hrow
        refine ⟨hvector, t, ht, congrArg Prod.fst heq, ?_⟩
        have hbody : (tripleRow t).2 = r.body := congrArg Prod.snd heq
        rw [← hbody]
        exact ⟨rfl, rfl⟩ }

/-- A write of a chunk that is not rolled back. -/
theorem upsertChunkGraph_cases (h : upsertChunkGraph σ chunk entities triples = some σ') :
    ∃ σ₁, EntitiesUpserted σ σ₁ chunk entities ∧ TriplesUpserted σ₁ σ' chunk triples := by
  obtain ⟨σ₁, hentities, htriples⟩ := Option.bind_eq_some_iff.mp h
  exact ⟨σ₁, entitiesUpserted_of_some hentities, triplesUpserted_of_some htriples⟩

end Yuanlei.KnowledgeGraph
