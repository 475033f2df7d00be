import Yuanlei.Knowledge.GraphTables

/-!
# The foreign keys of the graph tables

Every mention refers to a row and to a chunk.  A deletion takes a row away only after its last
mention, and a chunk takes its mentions along.

Main results:

- `ForeignKeys.upsertChunkGraph`, `ForeignKeys.deleteFileReferences` and
  `ForeignKeys.deleteChunks`: the writes of a chunk and of a deletion keep them.
- `SameRecords.updateVectorsOf`: the work on vectors changes no mention and no body.
-/

universe u

namespace Yuanlei.KnowledgeGraph

/-! ## Writes that change no mention -/

/-- No mention, no body of a row and no chunk identifier is lost or added. -/
structure SameRecords (σ σ' : GraphTables) : Prop where
  entityMentions : σ'.entityMentions = σ.entityMentions
  tripleMentions : σ'.tripleMentions = σ.tripleMentions
  chunks : ∀ chunk, (σ.chunks.get chunk).isSome → (σ'.chunks.get chunk).isSome
  entities : ∀ id, (σ'.entities.get id).map (·.body) = (σ.entities.get id).map (·.body)
  triples : ∀ id, (σ'.triples.get id).map (·.body) = (σ.triples.get id).map (·.body)

variable {β : Type u}

theorem map_body_updateVectors (t : Table RecordId (GraphRow β))
    (p : RecordId → VectorState → Bool) (f : VectorState → VectorState) (id : RecordId) :
    ((updateVectors t p f).get id).map (·.body) = (t.get id).map (·.body) := by
  rw [get_updateVectors, Option.map_map]
  apply congrArg (fun h => Option.map h (t.get id))
  funext r
  simp only [Function.comp_apply]
  split <;> rfl

variable {id : RecordId}

/-- A row of the new tables has the body of an old one. -/
theorem exists_of_map_body_eq {t t' : Table RecordId (GraphRow β)}
    (h : (t'.get id).map (·.body) = (t.get id).map (·.body)) {r' : GraphRow β}
    (hget : t'.get id = some r') : ∃ r, t.get id = some r ∧ r.body = r'.body := by
  rw [hget, Option.map_some] at h
  exact Option.map_eq_some_iff.mp h.symm

theorem isSome_of_map_body_eq {t t' : Table RecordId (GraphRow β)}
    (h : (t'.get id).map (·.body) = (t.get id).map (·.body)) :
    (t'.get id).isSome = (t.get id).isSome := by
  rw [← Option.isSome_map (f := GraphRow.body), h, Option.isSome_map]

variable (σ : GraphTables)

theorem SameRecords.ofChunks (chunks : Table ChunkId ChunkRow)
    (h : ∀ chunk, (σ.chunks.get chunk).isSome → (chunks.get chunk).isSome) :
    SameRecords σ { σ with chunks } where
  entityMentions := rfl
  tripleMentions := rfl
  chunks := h
  entities _ := rfl
  triples _ := rfl

theorem SameRecords.storeChunk (chunk : ChunkId) :
    SameRecords σ (storeChunk σ chunk) := by
  refine SameRecords.ofChunks σ _ fun chunk' hsome => ?_
  rw [Table.get_upsert]
  split
  · rfl
  · exact hsome

theorem SameRecords.modifyChunk (chunk : ChunkId) (f : ChunkRow → ChunkRow) :
    SameRecords σ { σ with chunks := σ.chunks.modify chunk f } := by
  refine SameRecords.ofChunks σ _ fun chunk' hsome => ?_
  rw [Table.get_modify]
  split
  · rw [Option.isSome_map]
    exact hsome
  · exact hsome

theorem SameRecords.mapChunks (f : ChunkId → ChunkRow → ChunkRow) :
    SameRecords σ { σ with chunks := σ.chunks.mapRows f } := by
  refine SameRecords.ofChunks σ _ fun chunk' hsome => ?_
  rw [Table.get_mapRows, Option.isSome_map]
  exact hsome

theorem SameRecords.updateVectorsOf (recordType : RecordType)
    (p : RecordId → VectorState → Bool) (f : VectorState → VectorState) :
    SameRecords σ (σ.updateVectors recordType p f) := by
  cases recordType with
  | entity =>
    exact
      { entityMentions := rfl
        tripleMentions := rfl
        chunks := fun _ h => h
        entities := map_body_updateVectors _ _ _
        triples := fun _ => rfl }
  | triple =>
    exact
      { entityMentions := rfl
        tripleMentions := rfl
        chunks := fun _ h => h
        entities := fun _ => rfl
        triples := map_body_updateVectors _ _ _ }

theorem SameRecords.trans {σ σ₁ σ₂ : GraphTables} (h : SameRecords σ σ₁)
    (h' : SameRecords σ₁ σ₂) : SameRecords σ σ₂ where
  entityMentions := h'.entityMentions.trans h.entityMentions
  tripleMentions := h'.tripleMentions.trans h.tripleMentions
  chunks chunk hsome := h'.chunks chunk (h.chunks chunk hsome)
  entities id := (h'.entities id).trans (h.entities id)
  triples id := (h'.triples id).trans (h.triples id)

theorem SameRecords.reconcileVectorRecords (now : Time) (allVectors : Bool) :
    SameRecords σ (reconcileVectorRecords σ now allVectors) := by
  have hvectors : SameRecords σ
      { σ with
        entities := reconcileRecords σ.entities now allVectors
        triples := reconcileRecords σ.triples now allVectors } :=
    { entityMentions := rfl
      tripleMentions := rfl
      chunks := fun _ h => h
      entities := map_body_updateVectors _ _ _
      triples := map_body_updateVectors _ _ _ }
  cases allVectors with
  | true => exact hvectors.trans (SameRecords.mapChunks _ fun _ r => { r with graphIndexed := false })
  | false => exact hvectors

/-! ## Foreign keys -/

/-- Every mention refers to a row and to a chunk. -/
structure ForeignKeys (σ : GraphTables) : Prop where
  entityRow : ∀ m ∈ σ.entityMentions, (σ.entities.get m.1).isSome
  tripleRow : ∀ m ∈ σ.tripleMentions, (σ.triples.get m.1).isSome
  entityChunk : ∀ m ∈ σ.entityMentions, (σ.chunks.get m.2).isSome
  tripleChunk : ∀ m ∈ σ.tripleMentions, (σ.chunks.get m.2).isSome

theorem ForeignKeys.empty : ForeignKeys .empty where
  entityRow _ h := by cases h
  tripleRow _ h := by cases h
  entityChunk _ h := by cases h
  tripleChunk _ h := by cases h

section Keys

variable {σ σ' : GraphTables}

section

variable (h : ForeignKeys σ)
include h

theorem ForeignKeys.sameRecords (hsame : SameRecords σ σ') :
    ForeignKeys σ' where
  entityRow m hm := by
    rw [hsame.entityMentions] at hm
    rw [isSome_of_map_body_eq (hsame.entities m.1)]
    exact h.entityRow m hm
  tripleRow m hm := by
    rw [hsame.tripleMentions] at hm
    rw [isSome_of_map_body_eq (hsame.triples m.1)]
    exact h.tripleRow m hm
  entityChunk m hm := by
    rw [hsame.entityMentions] at hm
    exact hsame.chunks _ (h.entityChunk m hm)
  tripleChunk m hm := by
    rw [hsame.tripleMentions] at hm
    exact hsame.chunks _ (h.tripleChunk m hm)

variable {chunk : ChunkId} {entities : List EntityRecord}

theorem ForeignKeys.upsertEntities (hup : EntitiesUpserted σ σ' chunk entities) :
    ForeignKeys σ' where
  entityRow m hm := by
    apply hup.isSome
    rcases (hup.mentions m).mp hm with hm | hm
    · exact Or.inl (h.entityRow m hm)
    · exact Or.inr hm.1
  tripleRow m hm := by
    rw [hup.tripleMentions] at hm
    rw [hup.triples]
    exact h.tripleRow m hm
  entityChunk m hm := by
    rw [hup.chunks]
    rcases (hup.mentions m).mp hm with hm | ⟨hid, hchunk⟩
    · exact h.entityChunk m hm
    · rw [hchunk]
      apply hup.chunkExists
      rintro rfl
      simp at hid
  tripleChunk m hm := by
    rw [hup.tripleMentions] at hm
    rw [hup.chunks]
    exact h.tripleChunk m hm

variable {triples : List TripleRecord}

theorem ForeignKeys.upsertTriples (hup : TriplesUpserted σ σ' chunk triples) :
    ForeignKeys σ' where
  entityRow m hm := by
    rw [hup.entityMentions] at hm
    rw [hup.entities]
    exact h.entityRow m hm
  tripleRow m hm := by
    apply hup.isSome
    rcases (hup.mentions m).mp hm with hm | hm
    · exact Or.inl (h.tripleRow m hm)
    · exact Or.inr hm.1
  entityChunk m hm := by
    rw [hup.entityMentions] at hm
    rw [hup.chunks]
    exact h.entityChunk m hm
  tripleChunk m hm := by
    rw [hup.chunks]
    rcases (hup.mentions m).mp hm with hm | ⟨hid, hchunk⟩
    · exact h.tripleChunk m hm
    · rw [hchunk]
      apply hup.chunkExists
      rintro rfl
      simp at hid

theorem ForeignKeys.upsertChunkGraph (hup : upsertChunkGraph σ chunk entities triples = some σ') : ForeignKeys σ' := by
  obtain ⟨σ₁, hentities, htriples⟩ := upsertChunkGraph_cases hup
  exact (h.upsertEntities hentities).upsertTriples htriples

end

/-! ## Deletions -/

variable {file : FileId} {m : Mention}

/-- An orphan has no mention left. -/
theorem not_mem_of_isOrphan {mentions : List Mention} {id : RecordId}
    (h : isOrphan mentions (mentionsOfOthers mentions file) file id)
    (hm : m ∈ mentionsOfOthers mentions file) : m.1 ≠ id := by
  intro hid
  unfold isOrphan at h
  rw [Bool.and_eq_true, Bool.not_eq_true', List.any_eq_false] at h
  exact h.2 m hm (by simp [hid])

theorem mem_orphanTripleIds (σ : GraphTables) (file : FileId) (id : RecordId) :
    id ∈ orphanTripleIds σ file ↔ (σ.triples.get id).isSome ∧
      isOrphan σ.tripleMentions (mentionsOfOthers σ.tripleMentions file) file id := by
  unfold orphanTripleIds
  have hkey : id ∈ σ.triples.keys ↔ (σ.triples.get id).isSome := by
    rw [← not_iff_not, Table.keys, ← Table.get_eq_none_iff]
    simp
  rw [List.mem_filter, hkey]

theorem mem_orphanEntityIds (σ : GraphTables) (file : FileId) (id : RecordId) :
    id ∈ orphanEntityIds σ file ↔ (σ.entities.get id).isSome ∧
      isOrphan σ.entityMentions (mentionsOfOthers σ.entityMentions file) file id ∧
        ¬ hasTriple (remainingTriples σ file) id := by
  unfold orphanEntityIds
  have hkey : id ∈ σ.entities.keys ↔ (σ.entities.get id).isSome := by
    rw [← not_iff_not, Table.keys, ← Table.get_eq_none_iff]
    simp
  rw [List.mem_filter, hkey]
  simp

theorem get_entities_deleteFileReferences (σ : GraphTables) (file : FileId) (id : RecordId) :
    (deleteFileReferences σ file).entities.get id =
      if id ∈ orphanEntityIds σ file then none else σ.entities.get id := by
  rw [deleteFileReferences, Table.get_restrict]
  by_cases h : id ∈ orphanEntityIds σ file <;> simp [h]

theorem get_triples_deleteFileReferences (σ : GraphTables) (file : FileId) (id : RecordId) :
    (deleteFileReferences σ file).triples.get id =
      if id ∈ orphanTripleIds σ file then none else σ.triples.get id := by
  rw [deleteFileReferences, remainingTriples, Table.get_restrict]
  by_cases h : id ∈ orphanTripleIds σ file <;> simp [h]

theorem not_mem_orphanEntityIds (hm : m ∈ σ.entityMentions)
    (hfile : m.2.file ≠ file) : m.1 ∉ orphanEntityIds σ file := by
  intro horphan
  have h := ((mem_orphanEntityIds σ file m.1).mp horphan).2.1
  exact not_mem_of_isOrphan h ((mem_mentionsOfOthers _ _ _).mpr ⟨hm, hfile⟩) rfl

theorem not_mem_orphanTripleIds (hm : m ∈ σ.tripleMentions)
    (hfile : m.2.file ≠ file) : m.1 ∉ orphanTripleIds σ file := by
  intro horphan
  have h := ((mem_orphanTripleIds σ file m.1).mp horphan).2
  exact not_mem_of_isOrphan h ((mem_mentionsOfOthers _ _ _).mpr ⟨hm, hfile⟩) rfl

section

variable (h : ForeignKeys σ)
include h

theorem ForeignKeys.deleteFileReferences (file : FileId) :
    ForeignKeys (deleteFileReferences σ file) where
  entityRow m hm := by
    obtain ⟨hm, hfile⟩ := (mem_mentionsOfOthers _ _ _).mp hm
    rw [get_entities_deleteFileReferences, if_neg (not_mem_orphanEntityIds hm hfile)]
    exact h.entityRow m hm
  tripleRow m hm := by
    obtain ⟨hm, hfile⟩ := (mem_mentionsOfOthers _ _ _).mp hm
    rw [get_triples_deleteFileReferences, if_neg (not_mem_orphanTripleIds hm hfile)]
    exact h.tripleRow m hm
  entityChunk m hm := h.entityChunk m ((mem_mentionsOfOthers _ _ _).mp hm).1
  tripleChunk m hm := h.tripleChunk m ((mem_mentionsOfOthers _ _ _).mp hm).1

theorem mem_entityMentions_deleteChunks (file : FileId) (m : Mention) :
    m ∈ (deleteChunks σ file).entityMentions ↔ m ∈ σ.entityMentions ∧ m.2.file ≠ file := by
  unfold KnowledgeGraph.deleteChunks
  rw [List.mem_filter]
  apply and_congr_right
  intro hm
  have hchunk := h.entityChunk m hm
  rw [Table.get_restrict]
  by_cases hfile : m.2.file = file <;> simp [hfile, hchunk]

theorem mem_tripleMentions_deleteChunks (file : FileId) (m : Mention) :
    m ∈ (deleteChunks σ file).tripleMentions ↔ m ∈ σ.tripleMentions ∧ m.2.file ≠ file := by
  unfold KnowledgeGraph.deleteChunks
  rw [List.mem_filter]
  apply and_congr_right
  intro hm
  have hchunk := h.tripleChunk m hm
  rw [Table.get_restrict]
  by_cases hfile : m.2.file = file <;> simp [hfile, hchunk]

theorem ForeignKeys.deleteChunks (file : FileId) :
    ForeignKeys (deleteChunks σ file) where
  entityRow m hm := h.entityRow m ((mem_entityMentions_deleteChunks h file m).mp hm).1
  tripleRow m hm := h.tripleRow m ((mem_tripleMentions_deleteChunks h file m).mp hm).1
  entityChunk _ hm := (List.mem_filter.mp hm).2
  tripleChunk _ hm := (List.mem_filter.mp hm).2

end

theorem ForeignKeys.deleteGraphRows (σ : GraphTables) : ForeignKeys (deleteGraphRows σ) where
  entityRow _ h := by cases h
  tripleRow _ h := by cases h
  entityChunk _ h := by cases h
  tripleChunk _ h := by cases h

end Keys

end Yuanlei.KnowledgeGraph
