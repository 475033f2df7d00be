import Yuanlei.Knowledge.GraphKeys
import Yuanlei.Knowledge.GraphVectors

/-!
# Indexed records have their vectors

A row counts on its vector when it is indexed, or when the batch that claims it has stored its vector
and will mark it.  A pending second step of a deletion or a reconciliation takes vectors away.  If no
vector is stored for a claimed row that such a step covers, then no row loses the vector it counts on.

Main results:

- `indexed_of_run`: in every run whose steps all meet the condition, indexed rows have
  their vectors, and fully indexed chunks mention indexed rows only.
- `reconcile_drops_indexed_vector`: a vector that is stored between the two steps of a
  reconciliation is lost for good.
-/

universe u

namespace Yuanlei.KnowledgeGraph

/-! ## Rows of both types -/

namespace GraphTables

/-- The vector columns of a row. -/
def vectorOf (σ : GraphTables) : RecordType → RecordId → Option VectorState
  | .entity, id => (σ.entities.get id).map (·.vector)
  | .triple, id => (σ.triples.get id).map (·.vector)

def mentions (σ : GraphTables) : RecordType → List Mention
  | .entity => σ.entityMentions
  | .triple => σ.tripleMentions

/-- The records that `delete_file_references` returns. -/
def orphanIds (σ : GraphTables) (file : FileId) : RecordType → List RecordId
  | .entity => orphanEntityIds σ file
  | .triple => orphanTripleIds σ file

/-- A record has a row, and the row is indexed. -/
def isIndexed (σ : GraphTables) (recordType : RecordType) (id : RecordId) : Bool :=
  (σ.vectorOf recordType id).any fun v => v.status == .indexed

theorem isIndexed_iff (σ : GraphTables) (recordType : RecordType) (id : RecordId) :
    σ.isIndexed recordType id ↔ ∃ v, σ.vectorOf recordType id = some v ∧ v.status = .indexed := by
  unfold isIndexed
  cases σ.vectorOf recordType id <;> simp

end GraphTables

/-! ## The condition -/

/-- A deletion or a reconciliation is going to delete the vector of the record. -/
def covered (σ : VectorSystem) (recordType : RecordType) (id : RecordId) : Bool :=
  (σ.reconciles.rows.any fun e => !e.2) ||
    σ.deletions.rows.any fun e => !e.2.vectorsDeleted && (e.2.ids recordType).contains id

/-- The rows of a batch that its token still holds are not covered. -/
def storesSafely (σ : VectorSystem) (token : LockToken) (b : Batch) : Bool :=
  b.ids.all fun id =>
    !covered σ b.recordType id ||
      !(σ.tables.vectorOf b.recordType id).any fun v => v.lockToken == some token

/-- All records of a chunk are indexed already. -/
def recordsIndexed (g : GraphNaming) (σ : GraphTables) (payload : GraphPayload) : Bool :=
  (buildEntityRecords g payload.entities).all (fun e => σ.isIndexed .entity e.entityId) &&
    (buildTripleRecords g payload.relations).all fun t => σ.isIndexed .triple t.tripleId

/-- Vectors are stored for claimed rows only while no other call is going to delete them, and the
graph of a fully indexed chunk is written again only with records that are indexed. -/
def keepsVectors (g : GraphNaming) (σ : VectorSystem) : VectorAction → Bool
  | .store token .done => (σ.batches.get token).all fun b => storesSafely σ token b
  | .upsertChunkGraph chunk extraction =>
    !((σ.tables.chunks.get chunk).any (·.graphIndexed)) ||
      recordsIndexed g σ.tables (buildGraphPayload g extraction)
  | _ => true

/-! ## The invariant -/

/-- An indexed row is not locked, and a fully indexed chunk mentions indexed rows. -/
structure RecordsInv (σ : GraphTables) : Prop where
  keys : ForeignKeys σ
  unlocked : ∀ recordType id v, σ.vectorOf recordType id = some v → v.status = .indexed →
    v.lockToken = none
  chunks : ∀ chunk row, σ.chunks.get chunk = some row → row.graphIndexed = true →
    ∀ recordType, ∀ m ∈ σ.mentions recordType, m.2 = chunk → σ.isIndexed recordType m.1

/-- The batch with a token has stored the vector of the record. -/
def heldByStored (batches : Table LockToken Batch) (recordType : RecordType) (id : RecordId)
    (v : VectorState) : Prop :=
  ∃ token b, v.lockToken = some token ∧ batches.get token = some b ∧ b.phase = .stored ∧
    b.recordType = recordType ∧ id ∈ b.ids

/-- The row counts on its vector. -/
def Exposed (σ : VectorSystem) (recordType : RecordType) (id : RecordId) : Prop :=
  ∃ v, σ.tables.vectorOf recordType id = some v ∧
    (v.status = .indexed ∨ heldByStored σ.batches recordType id v)

structure VectorInv (σ : VectorSystem) : Prop where
  records : RecordsInv σ.tables
  safe : ∀ recordType id, Exposed σ recordType id →
    id ∈ σ.vectors recordType ∧ covered σ recordType id = false

theorem vectorInv_empty : VectorInv .empty where
  records :=
    { keys := .empty
      unlocked := by
        intro recordType id v hget
        cases recordType <;> cases hget
      chunks := by
        intro chunk row hget
        cases hget }
  safe := by
    rintro recordType id ⟨v, hget, -⟩
    cases recordType <;> cases hget

/-! ## The tables -/

section Records

variable {σ σ' : GraphTables} {recordType : RecordType} {m : Mention}

theorem ForeignKeys.isSome_vectorOf (h : ForeignKeys σ) (hm : m ∈ σ.mentions recordType) :
    (σ.vectorOf recordType m.1).isSome := by
  cases recordType with
  | entity => simpa [GraphTables.vectorOf] using h.entityRow m hm
  | triple => simpa [GraphTables.vectorOf] using h.tripleRow m hm

variable {β : Type u}

theorem map_vector_updateVectors (t : Table RecordId (GraphRow β))
    (p : RecordId → VectorState → Bool) (f : VectorState → VectorState) (id : RecordId) :
    ((updateVectors t p f).get id).map (·.vector) =
      ((t.get id).map (·.vector)).map fun v => if p id v then f v else v := by
  rw [get_updateVectors, Option.map_map, Option.map_map]
  apply congrArg (fun h => Option.map h (t.get id))
  funext r
  simp only [Function.comp_apply]
  split <;> rfl

theorem vectorOf_updateVectors (σ : GraphTables) (recordType : RecordType)
    (p : RecordId → VectorState → Bool) (f : VectorState → VectorState)
    (recordType' : RecordType) (id : RecordId) :
    (σ.updateVectors recordType p f).vectorOf recordType' id =
      if recordType' = recordType then
        (σ.vectorOf recordType' id).map fun v => if p id v then f v else v
      else σ.vectorOf recordType' id := by
  cases recordType <;> cases recordType' <;> first | rfl | exact map_vector_updateVectors _ _ _ _

theorem mentions_updateVectors (σ : GraphTables) (recordType : RecordType)
    (p : RecordId → VectorState → Bool) (f : VectorState → VectorState) (recordType' : RecordType) :
    (σ.updateVectors recordType p f).mentions recordType' = σ.mentions recordType' := by
  cases recordType <;> cases recordType' <;> rfl

theorem chunks_updateVectors (σ : GraphTables) (recordType : RecordType)
    (p : RecordId → VectorState → Bool) (f : VectorState → VectorState) :
    (σ.updateVectors recordType p f).chunks = σ.chunks := by
  cases recordType <;> rfl

variable {id : RecordId} {v : VectorState} {p : RecordId → VectorState → Bool}
  {f : VectorState → VectorState}

theorem vectorOf_updateVectors_cases {recordType' : RecordType}
    (h : (σ.updateVectors recordType p f).vectorOf recordType' id = some v) :
    σ.vectorOf recordType' id = some v ∨
      recordType' = recordType ∧ ∃ v₀, σ.vectorOf recordType' id = some v₀ ∧ p id v₀ ∧
        v = f v₀ := by
  rw [vectorOf_updateVectors] at h
  split at h
  · rename_i htype
    obtain ⟨v₀, hv₀, heq⟩ := Option.map_eq_some_iff.mp h
    split at heq
    · rename_i hp
      exact Or.inr ⟨htype, v₀, hv₀, hp, heq.symm⟩
    · rw [hv₀, heq]
      exact Or.inl rfl
  · exact Or.inl h

theorem RecordsInv.updateVectors (h : RecordsInv σ) (recordType : RecordType)
    (hkeep : ∀ id v, σ.vectorOf recordType id = some v → p id v → v.status = .indexed →
      (f v).status = .indexed)
    (hunlock : ∀ v, (f v).status = .indexed → (f v).lockToken = none) :
    RecordsInv (σ.updateVectors recordType p f) where
  keys := h.keys.sameRecords (.updateVectorsOf _ _ _ _)
  unlocked recordType' id v hget hstatus := by
    rcases vectorOf_updateVectors_cases hget with hget | ⟨-, v₀, -, -, rfl⟩
    · exact h.unlocked recordType' id v hget hstatus
    · exact hunlock v₀ hstatus
  chunks chunk row hget hindexed recordType' m hm hchunk := by
    rw [chunks_updateVectors] at hget
    rw [mentions_updateVectors] at hm
    obtain ⟨v, hv, hstatus⟩ := (GraphTables.isIndexed_iff _ _ _).mp
      (h.chunks chunk row hget hindexed recordType' m hm hchunk)
    rw [GraphTables.isIndexed_iff, vectorOf_updateVectors, hv]
    split
    · rename_i htype
      subst htype
      simp only [Option.map_some, Option.some.injEq, exists_eq_left']
      split
      · rename_i hp
        exact hkeep m.1 v hv hp hstatus
      · exact hstatus
    · exact ⟨v, rfl, hstatus⟩

theorem isClaimable_of_mem_claimIds {now : Time} {limit : Nat}
    (h : id ∈ σ.claimIds recordType now limit) (hget : σ.vectorOf recordType id = some v) : v.isClaimable now := by
  cases recordType with
  | entity =>
    obtain ⟨r, hr, hclaim⟩ := (Table.mem_keysWith _ _ _).mp (List.mem_of_mem_take h)
    simp only [GraphTables.vectorOf, hr, Option.map_some, Option.some.injEq] at hget
    exact hget ▸ hclaim
  | triple =>
    obtain ⟨r, hr, hclaim⟩ := (Table.mem_keysWith _ _ _).mp (List.mem_of_mem_take h)
    simp only [GraphTables.vectorOf, hr, Option.map_some, Option.some.injEq] at hget
    exact hget ▸ hclaim

theorem claimVectorRecords_inv (h : RecordsInv σ) (recordType : RecordType) (now lease : Time)
    (limit : Nat) (token : LockToken) :
    RecordsInv (claimVectorRecords σ recordType now lease limit token) := by
  apply h.updateVectors
  · intro id v hget hmem hstatus
    have hclaim := isClaimable_of_mem_claimIds (List.contains_iff_mem.mp hmem) hget
    simp [VectorState.isClaimable, hstatus] at hclaim
  · intro v hstatus
    cases hstatus

theorem RecordsInv.status_ne_of_isHeld (h : RecordsInv σ) {ids : List RecordId} {token : LockToken}
    (hget : σ.vectorOf recordType id = some v) (hheld : isHeld ids token id v) :
    v.status ≠ .indexed := by
  intro hstatus
  have hnone := h.unlocked recordType id v hget hstatus
  simp [isHeld, hnone] at hheld

theorem markVectorRecordsIndexed_inv (h : RecordsInv σ) (recordType : RecordType)
    (ids : List RecordId) (token : LockToken) :
    RecordsInv (markVectorRecordsIndexed σ recordType ids token) :=
  h.updateVectors _ (fun _ _ _ _ _ => rfl) fun _ _ => rfl

theorem markVectorRecordsFailed_inv (h : RecordsInv σ) (recordType : RecordType)
    (ids : List RecordId) (token : LockToken) (now : Time) (error : String) :
    RecordsInv (markVectorRecordsFailed σ recordType ids token now error) :=
  h.updateVectors _
    (fun _ _ hget hheld hstatus => absurd hstatus (h.status_ne_of_isHeld hget hheld))
    fun _ _ => rfl

/-- The rows of both tables after a reconciliation. -/
theorem vectorOf_reconcileVectorRecords (σ : GraphTables) (now : Time) (allVectors : Bool)
    (recordType : RecordType) (id : RecordId) :
    (reconcileVectorRecords σ now allVectors).vectorOf recordType id =
      (σ.vectorOf recordType id).map fun v =>
        if v.isReconciled now allVectors then .pending else v := by
  cases recordType <;> exact map_vector_updateVectors _ _ _ _

theorem reconcileVectorRecords_inv (h : RecordsInv σ) (now : Time) (allVectors : Bool) :
    RecordsInv (reconcileVectorRecords σ now allVectors) := by
  refine ⟨h.keys.sameRecords (.reconcileVectorRecords _ _ _), ?_, ?_⟩
  · intro recordType id v hget hstatus
    rw [vectorOf_reconcileVectorRecords] at hget
    obtain ⟨v₀, hv₀, heq⟩ := Option.map_eq_some_iff.mp hget
    split at heq
    · rw [← heq] at hstatus
      cases hstatus
    · rw [← heq] at hstatus ⊢
      exact h.unlocked recordType id v₀ hv₀ hstatus
  · intro chunk row hget hindexed recordType m hm hchunk
    cases allVectors with
    | true =>
      simp only [reconcileVectorRecords, if_true, Table.get_mapRows] at hget
      obtain ⟨row₀, -, rfl⟩ := Option.map_eq_some_iff.mp hget
      cases hindexed
    | false =>
      have hm' : m ∈ σ.mentions recordType := by
        cases recordType <;> exact hm
      obtain ⟨v, hv, hstatus⟩ := (GraphTables.isIndexed_iff _ _ _).mp
        (h.chunks chunk row hget hindexed recordType m hm' hchunk)
      rw [GraphTables.isIndexed_iff, vectorOf_reconcileVectorRecords, hv]
      refine ⟨v, ?_, hstatus⟩
      simp [VectorState.isReconciled, hstatus]

variable {chunk : ChunkId} {entities : List EntityRecord} {triples : List TripleRecord}

section

variable (hup : upsertChunkGraph σ chunk entities triples = some σ')
include hup

theorem vectorOf_upsertChunkGraph (recordType : RecordType) (id : RecordId) :
    (∀ v, σ.vectorOf recordType id = some v → σ'.vectorOf recordType id = some v) ∧
      ∀ v, σ.vectorOf recordType id = none → σ'.vectorOf recordType id = some v → v = .pending := by
  obtain ⟨σ₁, hentities, htriples⟩ := upsertChunkGraph_cases hup
  cases recordType with
  | entity =>
    simp only [GraphTables.vectorOf, htriples.entities, Option.map_eq_some_iff,
      Option.map_eq_none_iff]
    constructor
    · rintro v ⟨r, hr, rfl⟩
      obtain ⟨b, hb⟩ := hentities.kept id r hr
      exact ⟨_, hb, rfl⟩
    · rintro v hnone ⟨r, hr, rfl⟩
      exact hentities.fresh id r hnone hr
  | triple =>
    simp only [GraphTables.vectorOf, ← hentities.triples, Option.map_eq_some_iff,
      Option.map_eq_none_iff]
    constructor
    · rintro v ⟨r, hr, rfl⟩
      obtain ⟨b, hb, -⟩ := htriples.kept id r hr
      exact ⟨_, hb, rfl⟩
    · rintro v hnone ⟨r, hr, rfl⟩
      exact (htriples.fresh id r hnone hr).1

theorem vectorOf_of_upsertChunkGraph (hget : σ'.vectorOf recordType id = some v) :
    σ.vectorOf recordType id = some v ∨ v = .pending := by
  obtain ⟨hkept, hfresh⟩ := vectorOf_upsertChunkGraph hup recordType id
  cases hold : σ.vectorOf recordType id with
  | none => exact Or.inr (hfresh v hold hget)
  | some v₀ =>
    rw [hkept v₀ hold] at hget
    exact Or.inl hget

theorem mem_mentions_upsertChunkGraph {m : Mention} (hm : m ∈ σ'.mentions recordType) :
    m ∈ σ.mentions recordType ∨ m.2 = chunk ∧
      match recordType with
      | .entity => m.1 ∈ entities.map EntityRecord.entityId
      | .triple => m.1 ∈ triples.map TripleRecord.tripleId := by
  obtain ⟨σ₁, hentities, htriples⟩ := upsertChunkGraph_cases hup
  cases recordType with
  | entity =>
    change m ∈ σ'.entityMentions at hm
    rw [htriples.entityMentions] at hm
    rcases (hentities.mentions m).mp hm with hm | hm
    · exact Or.inl hm
    · exact Or.inr ⟨hm.2, hm.1⟩
  | triple =>
    rcases (htriples.mentions m).mp hm with hm | hm
    · rw [hentities.tripleMentions] at hm
      exact Or.inl hm
    · exact Or.inr ⟨hm.2, hm.1⟩

theorem chunks_upsertChunkGraph :
    σ'.chunks = σ.chunks := by
  obtain ⟨σ₁, hentities, htriples⟩ := upsertChunkGraph_cases hup
  rw [htriples.chunks, hentities.chunks]

end

theorem upsertChunkGraph_inv (h : RecordsInv σ) {g : GraphNaming} {payload : GraphPayload}
    (hmeets : ((σ.chunks.get chunk).any (·.graphIndexed)) = true → recordsIndexed g σ payload = true)
    (hup : upsertChunkGraph σ chunk (buildEntityRecords g payload.entities)
      (buildTripleRecords g payload.relations) = some σ') : RecordsInv σ' := by
  refine ⟨h.keys.upsertChunkGraph hup, ?_, ?_⟩
  · intro recordType id v hget hstatus
    rcases vectorOf_of_upsertChunkGraph hup hget with hget | rfl
    · exact h.unlocked recordType id v hget hstatus
    · rfl
  · intro c row hget hindexed recordType m hm hchunk
    rw [chunks_upsertChunkGraph hup] at hget
    have hold : σ.isIndexed recordType m.1 := by
      rcases mem_mentions_upsertChunkGraph hup hm with hm | ⟨hc, hid⟩
      · exact h.chunks c row hget hindexed recordType m hm hchunk
      · have hall : recordsIndexed g σ payload = true := by
          apply hmeets
          rw [← hc, hchunk, hget]
          exact hindexed
        unfold recordsIndexed at hall
        rw [Bool.and_eq_true, List.all_eq_true, List.all_eq_true] at hall
        cases recordType with
        | entity =>
          obtain ⟨e, he, hid⟩ := List.mem_map.mp hid
          exact hid ▸ hall.1 e he
        | triple =>
          obtain ⟨t, ht, hid⟩ := List.mem_map.mp hid
          exact hid ▸ hall.2 t ht
    obtain ⟨v, hv, hstatus⟩ := (GraphTables.isIndexed_iff _ _ _).mp hold
    exact (GraphTables.isIndexed_iff _ _ _).mpr
      ⟨v, (vectorOf_upsertChunkGraph hup recordType m.1).1 v hv, hstatus⟩

theorem RecordsInv.withChunks (h : RecordsInv σ) {chunks : Table ChunkId ChunkRow}
    (hkeys : ∀ chunk, (σ.chunks.get chunk).isSome → (chunks.get chunk).isSome)
    (hflags : ∀ chunk row, chunks.get chunk = some row → row.graphIndexed = true →
      (∃ row₀, σ.chunks.get chunk = some row₀ ∧ row₀.graphIndexed = true) ∨
        ∀ recordType, ∀ m ∈ σ.mentions recordType, m.2 = chunk → σ.isIndexed recordType m.1) :
    RecordsInv { σ with chunks } where
  keys := h.keys.sameRecords (.ofChunks σ chunks hkeys)
  unlocked := by
    intro recordType id v hget
    exact h.unlocked recordType id v (by cases recordType <;> exact hget)
  chunks := by
    intro chunk row hget hindexed recordType m hm hchunk
    have hm' : m ∈ σ.mentions recordType := by
      cases recordType <;> exact hm
    have hold : σ.isIndexed recordType m.1 := by
      rcases hflags chunk row hget hindexed with ⟨row₀, hrow₀, hflag⟩ | hall
      · exact h.chunks chunk row₀ hrow₀ hflag recordType m hm' hchunk
      · exact hall recordType m hm' hchunk
    cases recordType <;> exact hold

theorem storeChunk_inv (h : RecordsInv σ) (chunk : ChunkId) : RecordsInv (storeChunk σ chunk) := by
  apply h.withChunks (SameRecords.storeChunk σ chunk).chunks
  intro chunk' row hget hindexed
  rw [KnowledgeGraph.storeChunk, Table.get_upsert] at hget
  split at hget
  · cases hget
    cases hindexed
  · exact Or.inl ⟨row, hget, hindexed⟩

theorem markGraphStructureIndexed_inv (h : RecordsInv σ) (chunk : ChunkId) :
    RecordsInv (markGraphStructureIndexed σ chunk) := by
  refine h.withChunks (SameRecords.modifyChunk σ chunk fun r =>
    { r with graphStructureIndexed := true }).chunks ?_
  intro chunk' row hget hindexed
  rw [Table.get_modify] at hget
  split at hget
  · obtain ⟨row₀, hrow₀, rfl⟩ := Option.map_eq_some_iff.mp hget
    exact Or.inl ⟨row₀, hrow₀, hindexed⟩
  · exact Or.inl ⟨row, hget, hindexed⟩

theorem isIndexed_of_not_hasNotIndexed {t : Table RecordId (GraphRow β)}
    {mentions : List Mention} (h : hasNotIndexed t mentions chunk = false)
    (hm : m ∈ mentions) (hchunk : m.2 = chunk) (hsome : (t.get m.1).isSome) :
    ((t.get m.1).map (·.vector)).any (fun v => v.status == .indexed) := by
  obtain ⟨r, hr⟩ := Option.isSome_iff_exists.mp hsome
  have hnone := List.any_eq_false.mp h m hm
  simp only [hchunk, beq_self_eq_true, Bool.true_and, hr, Option.any_some] at hnone
  simpa [hr] using hnone

theorem finalizeGraphIndexedChunks_inv (h : RecordsInv σ) :
    RecordsInv (finalizeGraphIndexedChunks σ) := by
  refine h.withChunks (σ := σ) (fun chunk hsome => ?_) fun chunk row hget hindexed => ?_
  · rw [Table.get_mapRows, Option.isSome_map]
    exact hsome
  rw [Table.get_mapRows] at hget
  obtain ⟨row₀, hrow₀, heq⟩ := Option.map_eq_some_iff.mp hget
  split at heq
  · rename_i hready
    simp only [Bool.and_eq_true, Bool.not_eq_true'] at hready
    right
    intro recordType m hm hchunk
    cases recordType with
    | entity => exact isIndexed_of_not_hasNotIndexed hready.1.2 hm hchunk (h.keys.entityRow m hm)
    | triple => exact isIndexed_of_not_hasNotIndexed hready.2 hm hchunk (h.keys.tripleRow m hm)
  · exact Or.inl ⟨row₀, hrow₀, heq ▸ hindexed⟩

theorem deleteChunks_inv (h : RecordsInv σ) (file : FileId) : RecordsInv (deleteChunks σ file) := by
  refine ⟨h.keys.deleteChunks file, ?_, ?_⟩
  · intro recordType id v hget
    exact h.unlocked recordType id v (by cases recordType <;> exact hget)
  · intro chunk row hget hindexed recordType m hm hchunk
    have hrow : σ.chunks.get chunk = some row := by
      change (σ.chunks.restrict _).get chunk = some row at hget
      rw [Table.get_restrict] at hget
      split at hget
      · exact hget
      · cases hget
    have hm' : m ∈ σ.mentions recordType := by
      cases recordType <;> exact (List.mem_filter.mp hm).1
    have hold := h.chunks chunk row hrow hindexed recordType m hm' hchunk
    cases recordType <;> exact hold

/-- A row that a deletion keeps is as it was. -/
theorem vectorOf_deleteFileReferences (σ : GraphTables) (file : FileId) (recordType : RecordType)
    (id : RecordId) :
    (deleteFileReferences σ file).vectorOf recordType id =
      if id ∈ σ.orphanIds file recordType then none else σ.vectorOf recordType id := by
  cases recordType with
  | entity =>
    simp only [GraphTables.vectorOf, get_entities_deleteFileReferences, GraphTables.orphanIds]
    by_cases horphan : id ∈ orphanEntityIds σ file <;> simp [horphan]
  | triple =>
    simp only [GraphTables.vectorOf, get_triples_deleteFileReferences, GraphTables.orphanIds]
    by_cases horphan : id ∈ orphanTripleIds σ file <;> simp [horphan]

theorem deleteFileReferences_inv (h : RecordsInv σ) (file : FileId) :
    RecordsInv (deleteFileReferences σ file) := by
  refine ⟨h.keys.deleteFileReferences file, ?_, ?_⟩
  · intro recordType id v hget
    rw [vectorOf_deleteFileReferences] at hget
    split at hget
    · cases hget
    · exact h.unlocked recordType id v hget
  · intro chunk row hget hindexed recordType m hm hchunk
    have hm' : m ∈ σ.mentions recordType ∧ m.2.file ≠ file := by
      cases recordType <;> exact (mem_mentionsOfOthers _ _ _).mp hm
    have hold := h.chunks chunk row hget hindexed recordType m hm'.1 hchunk
    unfold GraphTables.isIndexed at hold ⊢
    rw [vectorOf_deleteFileReferences, if_neg]
    · exact hold
    · cases recordType with
      | entity => exact not_mem_orphanEntityIds hm'.1 hm'.2
      | triple => exact not_mem_orphanTripleIds hm'.1 hm'.2

end Records

/-! ## The system -/

section System

variable {g : GraphNaming} {σ σ' : VectorSystem}

theorem covered_iff (σ : VectorSystem) (recordType : RecordType) (id : RecordId) :
    covered σ recordType id = true ↔ (∃ call, σ.reconciles.get call = some false) ∨
      ∃ call d, σ.deletions.get call = some d ∧ d.vectorsDeleted = false ∧
        id ∈ d.ids recordType := by
  unfold covered
  rw [Bool.or_eq_true, List.any_eq_true, List.any_eq_true]
  apply or_congr
  · constructor
    · rintro ⟨⟨call, dropped⟩, hrow, hdropped⟩
      cases dropped with
      | true => cases hdropped
      | false => exact ⟨call, (Table.mem_rows_iff _ _ _).mp hrow⟩
    · rintro ⟨call, hget⟩
      exact ⟨(call, false), (Table.mem_rows_iff _ _ _).mpr hget, rfl⟩
  · constructor
    · rintro ⟨⟨call, d⟩, hrow, hd⟩
      simp only [Bool.and_eq_true, Bool.not_eq_true', List.contains_iff_mem] at hd
      exact ⟨call, d, (Table.mem_rows_iff _ _ _).mp hrow, hd.1, hd.2⟩
    · rintro ⟨call, d, hget, hdeleted, hid⟩
      refine ⟨(call, d), (Table.mem_rows_iff _ _ _).mpr hget, ?_⟩
      simp [hdeleted, hid]

theorem VectorInv.of_step (h : VectorInv σ) (hrecords : RecordsInv σ'.tables)
    (hstep : ∀ recordType id, Exposed σ' recordType id → Exposed σ recordType id ∧
      (id ∈ σ.vectors recordType → covered σ recordType id = false → id ∈ σ'.vectors recordType) ∧
      (covered σ' recordType id = true → covered σ recordType id = true)) : VectorInv σ' where
  records := hrecords
  safe recordType id hexposed := by
    obtain ⟨hbefore, hvectors, hcovered⟩ := hstep recordType id hexposed
    obtain ⟨hmem, hfree⟩ := h.safe recordType id hbefore
    refine ⟨hvectors hmem hfree, ?_⟩
    by_contra htrue
    rw [Bool.not_eq_false] at htrue
    rw [hcovered htrue] at hfree
    cases hfree

variable {recordType : RecordType} {id : RecordId}

theorem Exposed.of_rows (h : Exposed σ' recordType id) (hbatches : σ'.batches = σ.batches)
    (hrows : ∀ v, σ'.tables.vectorOf recordType id = some v →
      σ.tables.vectorOf recordType id = some v ∨ v.status ≠ .indexed ∧ v.lockToken = none) :
    Exposed σ recordType id := by
  obtain ⟨v, hv, hcounts⟩ := h
  rcases hrows v hv with hold | ⟨hstatus, htoken⟩
  · refine ⟨v, hold, ?_⟩
    rwa [hbatches] at hcounts
  · rcases hcounts with hindexed | ⟨token, b, hlocked, -⟩
    · exact absurd hindexed hstatus
    · rw [htoken] at hlocked
      cases hlocked

theorem VectorInv.withTables (h : VectorInv σ) {tables : GraphTables} (hrecords : RecordsInv tables)
    (hrows : ∀ recordType id v, tables.vectorOf recordType id = some v →
      σ.tables.vectorOf recordType id = some v ∨ v.status ≠ .indexed ∧ v.lockToken = none) :
    VectorInv { σ with tables } := by
  refine h.of_step hrecords fun recordType id hexposed => ⟨?_, ?_, ?_⟩
  · exact hexposed.of_rows rfl (hrows recordType id)
  · intro hmem _
    cases recordType <;> exact hmem
  · exact fun hcovered => hcovered

variable {token : LockToken} {phase : BatchPhase}

theorem heldByStored_of_modify {batches : Table LockToken Batch} (hphase : phase ≠ .stored)
    {v : VectorState}
    (h : heldByStored (batches.modify token fun b => { b with phase }) recordType id v) :
    heldByStored batches recordType id v := by
  obtain ⟨token', b, hlocked, hget, hstored, htype, hid⟩ := h
  rw [Table.get_modify] at hget
  split at hget
  · obtain ⟨b₀, -, rfl⟩ := Option.map_eq_some_iff.mp hget
    exact absurd hstored hphase
  · exact ⟨token', b, hlocked, hget, hstored, htype, hid⟩

theorem writeTables_inv (h : VectorInv σ) (chunk : ChunkId) (payload : GraphPayload)
    (hmeets : ((σ.tables.chunks.get chunk).any (·.graphIndexed)) = true →
      recordsIndexed g σ.tables payload = true) : VectorInv (writeTables g σ chunk payload) := by
  unfold writeTables
  split
  · exact h
  · rename_i tables hup
    refine h.withTables (upsertChunkGraph_inv h.records hmeets hup) fun recordType id v hget => ?_
    rcases vectorOf_of_upsertChunkGraph hup hget with hold | rfl
    · exact Or.inl hold
    · exact Or.inr ⟨by decide, rfl⟩

theorem claimBatch_inv (h : VectorInv σ) (token : LockToken) (recordType : RecordType)
    (now lease : Time) (limit : Nat) :
    VectorInv (claimBatch σ token recordType now lease limit) := by
  unfold claimBatch
  simp only
  split
  · exact h
  · split
    · exact h
    · rename_i batches hinsert
      obtain ⟨hfresh, hget⟩ := Table.get_of_insert hinsert
      refine h.of_step (claimVectorRecords_inv h.records _ _ _ _ _) fun recordType' id hexposed => ?_
      refine ⟨?_, fun hmem _ => by cases recordType' <;> exact hmem, fun hcovered => hcovered⟩
      obtain ⟨v, hv, hcounts⟩ := hexposed
      have hheld : heldByStored batches recordType' id v →
          heldByStored σ.batches recordType' id v := by
        rintro ⟨token', b, hlocked, hb, hstored, htype, hid⟩
        rw [hget] at hb
        split at hb
        · cases hb
          cases hstored
        · exact ⟨token', b, hlocked, hb, hstored, htype, hid⟩
      rcases vectorOf_updateVectors_cases hv with hold | ⟨-, v₀, -, -, rfl⟩
      · exact ⟨v, hold, hcounts.imp_right hheld⟩
      · rcases hcounts with hindexed | ⟨token', b, hlocked, hb, hstored, -⟩
        · cases hindexed
        · cases hlocked
          rw [hget, if_pos rfl] at hb
          cases hb
          cases hstored

theorem mem_vectors_upsertGraphRecords (σ : VectorSystem) (recordType : RecordType)
    (ids : List RecordId) (recordType' : RecordType) (id : RecordId) :
    id ∈ (σ.upsertGraphRecords recordType ids).vectors recordType' ↔
      id ∈ σ.vectors recordType' ∨ recordType' = recordType ∧ id ∈ ids := by
  cases recordType <;> cases recordType' <;>
    simp [VectorSystem.upsertGraphRecords, VectorSystem.vectors]

/-- Nothing but the collection changes when vectors are stored. -/
theorem upsertGraphRecords_frame (σ : VectorSystem) (recordType : RecordType)
    (ids : List RecordId) :
    (σ.upsertGraphRecords recordType ids).tables = σ.tables ∧
      (σ.upsertGraphRecords recordType ids).batches = σ.batches ∧
        (σ.upsertGraphRecords recordType ids).deletions = σ.deletions ∧
          (σ.upsertGraphRecords recordType ids).reconciles = σ.reconciles := by
  cases recordType <;> exact ⟨rfl, rfl, rfl, rfl⟩

theorem covered_congr (hdeletions : σ'.deletions = σ.deletions)
    (hreconciles : σ'.reconciles = σ.reconciles) (recordType : RecordType) (id : RecordId) :
    covered σ' recordType id = covered σ recordType id := by
  unfold covered
  rw [hdeletions, hreconciles]

theorem upsertGraphRecords_inv (h : VectorInv σ) (recordType : RecordType) (ids : List RecordId) :
    VectorInv (σ.upsertGraphRecords recordType ids) := by
  obtain ⟨htables, hbatches, hdeletions, hreconciles⟩ := upsertGraphRecords_frame σ recordType ids
  refine h.of_step (htables ▸ h.records) fun recordType' id hexposed => ⟨?_, ?_, ?_⟩
  · apply hexposed.of_rows hbatches
    intro v hv
    rw [htables] at hv
    exact Or.inl hv
  · exact fun hmem _ => (mem_vectors_upsertGraphRecords _ _ _ _ _).mpr (Or.inl hmem)
  · rw [covered_congr hdeletions hreconciles]
    exact fun hcovered => hcovered

theorem setPhase_inv (h : VectorInv σ) (token : LockToken) (hphase : phase ≠ .stored) : VectorInv
    (σ.setPhase token phase) := by
  refine h.of_step h.records fun recordType id hexposed => ?_
  refine ⟨?_, fun hmem _ => by cases recordType <;> exact hmem, fun hcovered => hcovered⟩
  obtain ⟨v, hv, hcounts⟩ := hexposed
  exact ⟨v, hv, hcounts.imp_right (heldByStored_of_modify hphase)⟩

variable {b : Batch}

section

variable (h : VectorInv σ)
include h

theorem storeBatch_done_inv (hget : σ.batches.get token = some b) (hsafe : storesSafely σ token b) :
    VectorInv (storeBatch σ token b .done) := by
  obtain ⟨htables, hbatches, hdeletions, hreconciles⟩ :=
    upsertGraphRecords_frame σ b.recordType b.ids
  have hstore := upsertGraphRecords_inv h b.recordType b.ids
  change VectorInv ((σ.upsertGraphRecords b.recordType b.ids).setPhase token .stored)
  refine ⟨hstore.records, fun recordType id hexposed => ?_⟩
  have hcovered : covered ((σ.upsertGraphRecords b.recordType b.ids).setPhase token .stored)
      recordType id = covered σ recordType id := covered_congr hdeletions hreconciles recordType id
  have hvectors : ((σ.upsertGraphRecords b.recordType b.ids).setPhase token .stored).vectors
      recordType = (σ.upsertGraphRecords b.recordType b.ids).vectors recordType := by
    cases recordType <;> rfl
  rw [hcovered, hvectors, mem_vectors_upsertGraphRecords]
  obtain ⟨v, hv, hcounts⟩ := hexposed
  change (σ.upsertGraphRecords b.recordType b.ids).tables.vectorOf recordType id = some v at hv
  rw [htables] at hv
  have hold : Exposed σ recordType id →
      (id ∈ σ.vectors recordType ∨ recordType = b.recordType ∧ id ∈ b.ids) ∧
        covered σ recordType id = false := fun hexposed =>
    ⟨Or.inl (h.safe recordType id hexposed).1, (h.safe recordType id hexposed).2⟩
  rcases hcounts with hindexed | ⟨token', b', hlocked, hb', hstored, htype, hid⟩
  · exact hold ⟨v, hv, Or.inl hindexed⟩
  · change ((σ.upsertGraphRecords b.recordType b.ids).batches.modify token _).get token' = _ at hb'
    rw [hbatches, Table.get_modify] at hb'
    split at hb'
    · rename_i htoken
      subst htoken
      rw [hget] at hb'
      cases hb'
      refine ⟨Or.inr ⟨htype.symm, hid⟩, ?_⟩
      have hfree := List.all_eq_true.mp hsafe id hid
      subst htype
      rw [Bool.or_eq_true, Bool.not_eq_true', Bool.not_eq_true', hv] at hfree
      rcases hfree with hfree | hfree
      · exact hfree
      · simp [hlocked] at hfree
    · exact hold ⟨v, hv, Or.inr ⟨token', b', hlocked, hb', hstored, htype, hid⟩⟩

variable (outcome : CallOutcome)

section

variable (hget : σ.batches.get token = some b)
include hget

theorem storeBatch_inv (hsafe : outcome = .done → storesSafely σ token b = true) :
    VectorInv (storeBatch σ token b outcome) := by
  cases outcome with
  | done => exact storeBatch_done_inv h hget (hsafe rfl)
  | raised => exact setPhase_inv h token (by decide)
  | doneAndRaised =>
    exact setPhase_inv (upsertGraphRecords_inv h b.recordType b.ids) token (by decide)

theorem markVectorRecordsIndexed_system_inv (hstored : b.phase = .stored) :
    VectorInv { σ with tables := markVectorRecordsIndexed σ.tables b.recordType b.ids token } := by
  refine h.of_step (markVectorRecordsIndexed_inv h.records _ _ _) fun recordType id hexposed => ?_
  refine ⟨?_, fun hmem _ => by cases recordType <;> exact hmem, fun hcovered => hcovered⟩
  obtain ⟨v, hv, hcounts⟩ := hexposed
  rcases vectorOf_updateVectors_cases hv with hold | ⟨htype, v₀, hv₀, hheld, -⟩
  · exact ⟨v, hold, hcounts⟩
  · unfold isHeld at hheld
    rw [Bool.and_eq_true, List.contains_iff_mem, beq_iff_eq] at hheld
    exact ⟨v₀, hv₀, Or.inr ⟨token, b, hheld.2, hget, hstored, htype.symm, hheld.1⟩⟩

theorem markBatchIndexed_inv (hstored : b.phase = .stored) :
    VectorInv (markBatchIndexed σ token b outcome) := by
  have hmarked := markVectorRecordsIndexed_system_inv h hget hstored
  cases outcome with
  | done => exact setPhase_inv hmarked token (by decide)
  | raised => exact setPhase_inv h token (by decide)
  | doneAndRaised => exact setPhase_inv hmarked token (by decide)

end

theorem markBatchFailed_inv (token : LockToken) (b : Batch) (now : Time)
    (error : String) : VectorInv (markBatchFailed σ token b now error) := by
  apply setPhase_inv _ token (by decide)
  refine h.withTables (markVectorRecordsFailed_inv h.records _ _ _ _ _) fun recordType id v hv => ?_
  rcases vectorOf_updateVectors_cases hv with hold | ⟨-, v₀, -, -, rfl⟩
  · exact Or.inl hold
  · refine Or.inr ⟨?_, rfl⟩
    unfold VectorState.markFailed
    simp only
    split <;> decide

theorem startDeletion_inv (call : CallId) (file : FileId) :
    VectorInv (startDeletion σ call file) := by
  unfold startDeletion
  split
  · exact h
  · rename_i deletions hinsert
    obtain ⟨hfresh, hget⟩ := Table.get_of_insert hinsert
    refine h.of_step (deleteFileReferences_inv h.records file) fun recordType id hexposed => ?_
    have hrow : id ∉ σ.tables.orphanIds file recordType ∧ Exposed σ recordType id := by
      obtain ⟨v, hv, hcounts⟩ := hexposed
      change (deleteFileReferences σ.tables file).vectorOf recordType id = some v at hv
      rw [vectorOf_deleteFileReferences] at hv
      split at hv
      · cases hv
      · rename_i horphan
        exact ⟨horphan, v, hv, hcounts⟩
    refine ⟨hrow.2, fun hmem _ => by cases recordType <;> exact hmem, fun hcovered => ?_⟩
    rw [covered_iff] at hcovered ⊢
    rcases hcovered with hdrop | ⟨call', d, hd, hdeleted, hid⟩
    · exact Or.inl hdrop
    · rw [hget] at hd
      split at hd
      · cases hd
        refine absurd ?_ hrow.1
        cases recordType <;> exact hid
      · exact Or.inr ⟨call', d, hd, hdeleted, hid⟩

end

theorem mem_vectors_deleteGraphRecords (σ : VectorSystem) (d : GraphDeletion)
    (recordType : RecordType) (id : RecordId) :
    id ∈ (σ.deleteGraphRecords d).vectors recordType ↔
      id ∈ σ.vectors recordType ∧ id ∉ d.ids recordType := by
  cases recordType <;>
    simp [VectorSystem.deleteGraphRecords, VectorSystem.vectors, GraphDeletion.ids]

variable {call : CallId}

theorem finishDeletion_inv (h : VectorInv σ) {d : GraphDeletion}
    (outcome : CallOutcome) (hget : σ.deletions.get call = some d)
    (hpending : d.vectorsDeleted = false) : VectorInv (finishDeletion σ call d outcome) := by
  have hvectors : ∀ recordType id, id ∈ σ.vectors recordType → covered σ recordType id = false →
      id ∈ (if outcome.hasEffect then σ.deleteGraphRecords d else σ).vectors recordType := by
    intro recordType id hmem hfree
    split
    · rw [mem_vectors_deleteGraphRecords]
      refine ⟨hmem, fun hid => ?_⟩
      have hcovered : covered σ recordType id = true :=
        (covered_iff σ recordType id).mpr (Or.inr ⟨call, d, hget, hpending, hid⟩)
      rw [hcovered] at hfree
      cases hfree
    · exact hmem
  have hframe : (finishDeletion σ call d outcome).tables = σ.tables ∧
      (finishDeletion σ call d outcome).batches = σ.batches ∧
        (finishDeletion σ call d outcome).reconciles = σ.reconciles := by
    cases outcome <;> exact ⟨rfl, rfl, rfl⟩
  refine h.of_step (hframe.1 ▸ h.records) fun recordType id hexposed => ⟨?_, ?_, ?_⟩
  · apply hexposed.of_rows hframe.2.1
    intro v hv
    rw [hframe.1] at hv
    exact Or.inl hv
  · intro hmem hfree
    have hkeep := hvectors recordType id hmem hfree
    cases recordType <;> exact hkeep
  · rw [covered_iff, covered_iff, hframe.2.2]
    apply Or.imp_right
    rintro ⟨call', d', hd', hdeleted, hid⟩
    simp only [finishDeletion, Table.get_modify] at hd'
    split at hd'
    · obtain ⟨d₀, -, rfl⟩ := Option.map_eq_some_iff.mp hd'
      cases hdeleted
    · exact ⟨call', d', hd', hdeleted, hid⟩

/-- After the reset no row counts on a vector that the drop takes away. -/
theorem startReconcile_inv (h : VectorInv σ) (call : CallId) (now : Time) (allVectors : Bool) :
    VectorInv (startReconcile σ call now allVectors) := by
  unfold startReconcile
  split
  · exact h
  · rename_i reconciles hinsert
    obtain ⟨hfresh, hget⟩ := Table.get_of_insert hinsert
    refine h.of_step (reconcileVectorRecords_inv h.records now allVectors)
      fun recordType id hexposed => ?_
    have hrows : ∀ v, (reconcileVectorRecords σ.tables now allVectors).vectorOf recordType id =
        some v → (allVectors = false ∧ σ.tables.vectorOf recordType id = some v) ∨
          v.status ≠ .indexed ∧ v.lockToken = none := by
      intro v hv
      rw [vectorOf_reconcileVectorRecords] at hv
      obtain ⟨v₀, hv₀, heq⟩ := Option.map_eq_some_iff.mp hv
      split at heq
      · exact Or.inr (heq ▸ ⟨by decide, rfl⟩)
      · rename_i hreconciled
        left
        cases allVectors with
        | true => exact absurd rfl hreconciled
        | false => exact ⟨rfl, heq ▸ hv₀⟩
    refine ⟨?_, fun hmem _ => by cases recordType <;> exact hmem, fun hcovered => ?_⟩
    · exact hexposed.of_rows rfl fun v hv => (hrows v hv).imp_left And.right
    · cases allVectors with
      | true =>
        obtain ⟨v, hv, hcounts⟩ := hexposed
        rcases hrows v hv with ⟨hall, -⟩ | ⟨hstatus, htoken⟩
        · cases hall
        · rcases hcounts with hindexed | ⟨token, b, hlocked, -⟩
          · exact absurd hindexed hstatus
          · rw [htoken] at hlocked
            cases hlocked
      | false =>
        rw [covered_iff] at hcovered ⊢
        rcases hcovered with ⟨call', hdrop⟩ | hdeletion
        · rw [hget] at hdrop
          split at hdrop
          · cases hdrop
          · exact Or.inl ⟨call', hdrop⟩
        · exact Or.inr hdeletion

/-- While a drop is pending no row counts on a vector. -/
theorem finishReconcile_inv (h : VectorInv σ) (outcome : CallOutcome)
    (hget : σ.reconciles.get call = some false) : VectorInv (finishReconcile σ call outcome) := by
  have hframe : (finishReconcile σ call outcome).tables = σ.tables ∧
      (finishReconcile σ call outcome).batches = σ.batches := by
    cases outcome <;> exact ⟨rfl, rfl⟩
  refine ⟨hframe.1 ▸ h.records, fun recordType id hexposed => ?_⟩
  have hbefore : Exposed σ recordType id := by
    apply hexposed.of_rows hframe.2
    intro v hv
    rw [hframe.1] at hv
    exact Or.inl hv
  have hcovered : covered σ recordType id = true :=
    (covered_iff σ recordType id).mpr (Or.inl ⟨call, hget⟩)
  rw [(h.safe recordType id hbefore).2] at hcovered
  cases hcovered

theorem vectorStep_inv (σ : VectorSystem) (a : VectorAction) (hmeets : keepsVectors g σ a = true)
    (h : VectorInv σ) : VectorInv (vectorStep g σ a) := by
  have hsame : ∀ {tables : GraphTables}, RecordsInv tables →
      (∀ recordType id, tables.vectorOf recordType id = σ.tables.vectorOf recordType id) →
      VectorInv { σ with tables } := fun hrecords hrows =>
    h.withTables hrecords fun recordType id v hv => Or.inl (hrows recordType id ▸ hv)
  cases a with
  | storeChunk chunk =>
    exact hsame (storeChunk_inv h.records chunk) fun recordType _ => by cases recordType <;> rfl
  | deleteChunks file =>
    exact hsame (deleteChunks_inv h.records file) fun recordType _ => by cases recordType <;> rfl
  | upsertChunkGraph chunk extraction =>
    apply writeTables_inv h
    intro hindexed
    simpa [keepsVectors, hindexed] using hmeets
  | markGraphStructureIndexed chunk =>
    exact hsame (markGraphStructureIndexed_inv h.records chunk) fun recordType _ => by
      cases recordType <;> rfl
  | finalize =>
    exact hsame (finalizeGraphIndexedChunks_inv h.records) fun recordType _ => by
      cases recordType <;> rfl
  | claim token recordType now lease limit => exact claimBatch_inv h token recordType now lease limit
  | store token outcome =>
    simp only [vectorStep]
    split
    · rename_i b hget
      split
      · apply storeBatch_inv h outcome hget
        rintro rfl
        simpa [keepsVectors, hget] using hmeets
      · exact h
    · exact h
  | markIndexed token outcome =>
    simp only [vectorStep]
    split
    · rename_i b hget
      split
      · rename_i hstored
        exact markBatchIndexed_inv h outcome hget hstored
      · exact h
    · exact h
  | markFailed token now error =>
    simp only [vectorStep]
    split
    · split
      · exact markBatchFailed_inv h token _ now error
      · exact h
    · exact h
  | deleteFileReferences call file => exact startDeletion_inv h call file
  | deleteGraphRecords call outcome =>
    simp only [vectorStep]
    split
    · rename_i d hget
      split
      · exact h
      · rename_i hpending
        exact finishDeletion_inv h outcome hget (by simpa using hpending)
    · exact h
  | reconcile call now allVectors => exact startReconcile_inv h call now allVectors
  | dropGraphCollections call outcome =>
    simp only [vectorStep]
    split
    · rename_i dropped hget
      cases dropped with
      | true => exact h
      | false => exact finishReconcile_inv h outcome hget
    · exact h

end System

/-! ## Runs -/

/-- In every run whose steps all meet the condition, every indexed row has its vector, every fully
indexed chunk mentions rows that are indexed, and every mention refers to a row. -/
theorem indexed_of_run (g : GraphNaming) (as : List VectorAction)
    (hmeets : Transition.Guarded (vectorStep g) (fun σ a => keepsVectors g σ a = true) .empty as) :
    let σ := Transition.exec (vectorStep g) .empty as
    (∀ recordType id, σ.tables.isIndexed recordType id → id ∈ σ.vectors recordType) ∧
      (∀ chunk row, σ.tables.chunks.get chunk = some row → row.graphIndexed = true →
        ∀ recordType, ∀ m ∈ σ.tables.mentions recordType, m.2 = chunk →
          σ.tables.isIndexed recordType m.1) ∧
      ∀ recordType, ∀ m ∈ σ.tables.mentions recordType,
        (σ.tables.vectorOf recordType m.1).isSome := by
  have hinv := Transition.exec_invariant_of_guarded (vectorStep g) vectorStep_inv vectorInv_empty
    hmeets
  refine ⟨fun recordType id hindexed => ?_, hinv.records.chunks, fun recordType m hm => ?_⟩
  · obtain ⟨v, hv, hstatus⟩ := (GraphTables.isIndexed_iff _ _ _).mp hindexed
    exact (hinv.safe recordType id ⟨v, hv, Or.inl hstatus⟩).1
  · exact hinv.records.keys.isSome_vectorOf hm

/-! ## Sample runs -/

/-- A chunk with one entity is written and marked. -/
def writtenChunk (file : FileId) : List VectorAction :=
  [.storeChunk (sampleChunk file),
    .upsertChunkGraph (sampleChunk file) { entities := [sampleEntity "ada"], relations := [] },
    .markGraphStructureIndexed (sampleChunk file)]

/-- A worker claims the entities, stores their vectors and marks them. -/
def indexedBatch (token : LockToken) : List VectorAction :=
  [.claim token .entity 0 900 64, .store token .done, .markIndexed token .done, .finalize]

def sampleEntityId : RecordId := "c059d2d422eea5b193847525bc4cc3b7"

/-- A worker indexes an entity between the two steps of a reconciliation of all vectors. -/
def indexedBeforeDrop : List VectorAction :=
  writtenChunk "file_a" ++ [.reconcile 1 0 true] ++ indexedBatch 1 ++
    [.dropGraphCollections 1 .done]

/-- A file is deleted, and another one mentions its entity again; the entity is indexed before the
deletion has ended, or after it. -/
def indexedWithDeletion (before : Bool) : List VectorAction :=
  writtenChunk "file_a" ++ indexedBatch 1 ++ [.deleteFileReferences 1 "file_a"] ++
    writtenChunk "file_b" ++ (if before then indexedBatch 2 ++ [.deleteGraphRecords 1 .done]
      else .deleteGraphRecords 1 .done :: indexedBatch 2)

def afterRun (as : List VectorAction) : VectorSystem :=
  Transition.exec (vectorStep sampleNaming) .empty as

/-- The row of the entity and the chunk of a file are indexed. -/
def entityIndexed (σ : VectorSystem) (file : FileId) : Bool :=
  σ.tables.isIndexed .entity sampleEntityId &&
    (σ.tables.chunks.get (sampleChunk file)).any (·.graphIndexed)

/-- An entity that is indexed between the two steps of a reconciliation, or of a deletion, loses its
vector and stays indexed. -/
theorem reconcile_drops_indexed_vector :
    entityIndexed (afterRun indexedBeforeDrop) "file_a" = true ∧
      (afterRun indexedBeforeDrop).vectors .entity = [] ∧
    entityIndexed (afterRun (indexedWithDeletion true)) "file_b" = true ∧
      (afterRun (indexedWithDeletion true)).vectors .entity = [] := by
  decide +kernel

/-- An entity that is indexed after the deletion has its vector. -/
theorem indexedWithDeletion_has_vector :
    sampleEntityId ∈ (afterRun (indexedWithDeletion false)).vectors .entity :=
  (indexed_of_run sampleNaming (indexedWithDeletion false) (by decide +kernel)).1 .entity
    sampleEntityId (by decide +kernel)

end Yuanlei.KnowledgeGraph
