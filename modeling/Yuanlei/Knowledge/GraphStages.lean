import Yuanlei.Knowledge.GraphTables
import Yuanlei.Lib.Transition

/-!
# Building and deleting the graph of a file

A chunk is written to Neo4j first, to the tables second, and marked last; its vectors and the flag
`graph_indexed` follow later.  `delete_file_chunks_only` cleans up the graph of a file only
when one of its chunks has that flag.  A write, a deletion or a reset can fail between its stages and
be tried again.

Main definitions:

- `PropertyGraph`: the nodes and the edges in Neo4j.
- `graphStep`: a stage of a build, a deletion or a reset.
-/

namespace Yuanlei.KnowledgeGraph

/-! ## The property graph -/

structure EntityNode where
  entityId : RecordId
  name : String
  attributes : List EntityAttribute
deriving DecidableEq

/-- A `RELATION` between two entities, one for each chunk and type. -/
structure RelationEdge where
  source : EntityKey
  target : EntityKey
  relationType : String
  chunk : ChunkId
deriving DecidableEq

/-- The nodes and the edges of one knowledge base in Neo4j. -/
structure PropertyGraph where
  chunkNodes : List ChunkId
  entityNodes : Table EntityKey EntityNode
  mentions : List (ChunkId × EntityKey)
  relations : List RelationEdge

def PropertyGraph.empty : PropertyGraph where
  chunkNodes := []
  entityNodes := .empty
  mentions := []
  relations := []

/-- `MERGE` of a node or an edge. -/
def merge {α : Type} [DecidableEq α] (xs : List α) (x : α) : List α :=
  if x ∈ xs then xs else xs ++ [x]

@[simp]
theorem mem_merge {α : Type} [DecidableEq α] (xs : List α) (x y : α) :
    y ∈ merge xs x ↔ y ∈ xs ∨ y = x := by
  unfold merge
  split
  · rename_i hmem
    constructor
    · exact Or.inl
    · rintro (h | rfl)
      · exact h
      · exact hmem
  · simp

section Writes

variable (g : GraphNaming)

/-- `cypher_merge_chunk` -/
def mergeChunk (n : PropertyGraph) (chunk : ChunkId) : PropertyGraph :=
  { n with chunkNodes := merge n.chunkNodes chunk }

/-- `cypher_merge_entity_mention` -/
def mergeEntityMention (chunk : ChunkId) (n : PropertyGraph) (e : GraphEntity) : PropertyGraph :=
  if chunk ∈ n.chunkNodes then
    { n with
      entityNodes := n.entityNodes.upsert (e.key g)
        { entityId := g.computeEntityId (e.key g).normalizedName (e.key g).label
          name := e.text
          attributes := e.attributes }
      mentions := merge n.mentions (chunk, e.key g) }
  else n

/-- `cypher_merge_relation` -/
def mergeRelation (chunk : ChunkId) (n : PropertyGraph) (r : GraphRelation) : PropertyGraph :=
  if (n.entityNodes.get r.source).isSome ∧ (n.entityNodes.get r.target).isSome then
    { n with
      relations := merge n.relations
        { source := r.source
          target := r.target
          relationType := r.label
          chunk } }
  else n

/-- `write_chunk_graph`: one transaction. -/
def writeChunkGraph (n : PropertyGraph) (chunk : ChunkId) (payload : GraphPayload) :
    PropertyGraph :=
  payload.relations.foldl (mergeRelation chunk)
    (payload.entities.foldl (mergeEntityMention g chunk) (mergeChunk n chunk))

end Writes

/-- An entity that the file mentions and no other file does. -/
def mentionedOnlyBy (n : PropertyGraph) (file : FileId) (key : EntityKey) : Bool :=
  n.mentions.any (fun m => m.1.file == file && m.2 == key) &&
    !n.mentions.any fun m => m.1.file != file && m.2 == key

/-- `_delete_file_graph_from_neo4j`: one transaction; a deleted node takes its edges along. -/
def deleteFileNodes (n : PropertyGraph) (file : FileId) : PropertyGraph where
  chunkNodes := n.chunkNodes.filter fun c => c.file != file
  entityNodes := n.entityNodes.restrict fun key => !mentionedOnlyBy n file key
  mentions := n.mentions.filter fun m => m.1.file != file
  relations := n.relations.filter fun r =>
    r.chunk.file != file && !mentionedOnlyBy n file r.source && !mentionedOnlyBy n file r.target

/-! ## Steps -/

/-- The tables and the graph of a knowledge base. -/
structure GraphState where
  tables : GraphTables
  graph : PropertyGraph

def GraphState.empty : GraphState where
  tables := .empty
  graph := .empty

/-- How far a write of a chunk gets before it fails, or that it does not. -/
inductive WriteStage where
  | graphWritten
  | tablesWritten
  | marked
deriving DecidableEq

/-- How far a deletion gets before it fails, or that it does not. -/
inductive DeleteStage where
  | referencesDeleted
  | graphDeleted
  | returned
deriving DecidableEq

/-- How far a reset gets before it fails, or that it does not. -/
inductive ResetStage where
  | graphDeleted
  | rowsDeleted
  | returned
deriving DecidableEq

inductive GraphAction where
  | storeChunk (chunk : ChunkId)
  | extract (chunk : ChunkId) (result : Extraction)
  | writeChunk (chunk : ChunkId) (stage : WriteStage)
  | claim (recordType : RecordType) (now lease : Time) (limit : Nat) (token : LockToken)
  | markIndexed (recordType : RecordType) (ids : List RecordId) (token : LockToken)
  | markFailed (recordType : RecordType) (ids : List RecordId) (token : LockToken) (now : Time)
      (error : String)
  | finalize
  | reconcile (now : Time) (allVectors : Bool)
  | reset (clearExtractionResult : Bool) (stage : ResetStage)
  | deleteFile (file : FileId) (stage : DeleteStage)

section Steps

variable (g : GraphNaming)

/-- What `write_worker` writes of a chunk with an extraction result. -/
def writePayload (σ : GraphState) (chunk : ChunkId) (payload : GraphPayload)
    (stage : WriteStage) : GraphState :=
  let σ₁ := { σ with graph := writeChunkGraph g σ.graph chunk payload }
  if stage = .graphWritten then σ₁
  else
    match upsertChunkGraph σ.tables chunk (buildEntityRecords g payload.entities)
        (buildTripleRecords g payload.relations) with
    | none => σ₁
    | some tables =>
      if stage = .tablesWritten then { σ₁ with tables }
      else { σ₁ with tables := markGraphStructureIndexed tables chunk }

/-- The payload of a chunk that has been extracted. -/
def payloadOf (σ : GraphTables) (chunk : ChunkId) : Option GraphPayload :=
  ((σ.chunks.get chunk).bind (·.extractionResult)).map (buildGraphPayload g)

def writeChunk (σ : GraphState) (chunk : ChunkId) (stage : WriteStage) : GraphState :=
  match payloadOf g σ.tables chunk with
  | none => σ
  | some payload => writePayload g σ chunk payload stage

def deleteFileGraph (σ : GraphState) (file : FileId) (stage : DeleteStage) : GraphState :=
  let σ₁ := { σ with tables := deleteFileReferences σ.tables file }
  if stage = .referencesDeleted then σ₁
  else { σ₁ with graph := deleteFileNodes σ.graph file }

def deleteFileChunksOnly (σ : GraphState) (file : FileId) (stage : DeleteStage) : GraphState :=
  let σ₁ := if countGraphIndexed σ.tables file ≠ 0 then deleteFileGraph σ file stage else σ
  if stage = .returned then { σ₁ with tables := deleteChunks σ₁.tables file } else σ₁

def reset (σ : GraphState) (clearExtractionResult : Bool) : ResetStage → GraphState
  | .graphDeleted => { σ with graph := .empty }
  | .rowsDeleted => { tables := deleteGraphRows σ.tables, graph := .empty }
  | .returned =>
    { tables := resetGraphState (deleteGraphRows σ.tables) clearExtractionResult
      graph := .empty }

def graphStep (σ : GraphState) : GraphAction → GraphState
  | .storeChunk chunk => { σ with tables := storeChunk σ.tables chunk }
  | .extract chunk result => { σ with tables := updateExtractionResult σ.tables chunk result }
  | .writeChunk chunk stage => writeChunk g σ chunk stage
  | .claim recordType now lease limit token =>
    { σ with tables := claimVectorRecords σ.tables recordType now lease limit token }
  | .markIndexed recordType ids token =>
    { σ with tables := markVectorRecordsIndexed σ.tables recordType ids token }
  | .markFailed recordType ids token now error =>
    { σ with tables := markVectorRecordsFailed σ.tables recordType ids token now error }
  | .finalize => { σ with tables := finalizeGraphIndexedChunks σ.tables }
  | .reconcile now allVectors =>
    { σ with tables := reconcileVectorRecords σ.tables now allVectors }
  | .reset clearExtractionResult stage => reset σ clearExtractionResult stage
  | .deleteFile file stage => deleteFileChunksOnly σ file stage

end Steps

end Yuanlei.KnowledgeGraph
