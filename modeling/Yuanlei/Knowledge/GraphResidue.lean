import Yuanlei.Knowledge.GraphKeys
import Yuanlei.Knowledge.GraphStages

/-!
# What a deleted file leaves in the graph

An entity or a triple is kept by the chunks that mention it.  A deletion that cleans up takes away
exactly the records and nodes that the file alone keeps; one that does not leaves them behind, and no
later deletion finds them.

Main results:

- `leavesNoResidue_iff_of_run`: after a run whose steps all meet the condition, a
  deletion leaves no residue exactly when it meets the condition itself.
- `structureIndexed_leaves_residue`: a file that is not fully indexed leaves its graph
  behind.
-/

namespace Yuanlei.KnowledgeGraph

/-! ## The condition -/

/-- Every record that the file mentions is mentioned by another file too. -/
def sharesMentions (mentions : List Mention) (file : FileId) : Bool :=
  mentions.all fun m =>
    m.2.file != file || mentions.any fun m' => m'.1 == m.1 && m'.2.file != file

/-- One of the chunks of the file is fully indexed, or the file has no chunk in Neo4j and shares
what it mentions. -/
def cleansUp (σ : GraphState) (file : FileId) : Bool :=
  countGraphIndexed σ.tables file != 0 ||
    (σ.graph.chunkNodes.all fun c => c.file != file) &&
      sharesMentions σ.tables.entityMentions file && sharesMentions σ.tables.tripleMentions file

/-- No triple of the chunk has the identifier of a triple with other endpoints. -/
def endpointsAgree (σ : GraphTables) (triples : List TripleRecord) : Bool :=
  triples.all fun t => (σ.triples.get t.tripleId).all fun r =>
    r.body.sourceEntityId == t.sourceEntityId && r.body.targetEntityId == t.targetEntityId

def meets (g : GraphNaming) (σ : GraphState) : GraphAction → Bool
  | .writeChunk chunk _ =>
    (payloadOf g σ.tables chunk).all fun payload =>
      endpointsAgree σ.tables (buildTripleRecords g payload.relations)
  | .deleteFile file _ => cleansUp σ file
  | _ => true

/-! ## Nothing is left -/

/-- A record that the file mentions and no other file does. -/
def OnlyIn (mentions : List Mention) (file : FileId) (id : RecordId) : Prop :=
  (∃ m ∈ mentions, m.1 = id) ∧ ∀ m ∈ mentions, m.1 = id → m.2.file = file

/-- What the clean-up of a file does to the tables. -/
structure TablesCleaned (before after : GraphTables) (file : FileId) : Prop where
  entityMentions : ∀ m, m ∈ after.entityMentions ↔ m ∈ before.entityMentions ∧ m.2.file ≠ file
  tripleMentions : ∀ m, m ∈ after.tripleMentions ↔ m ∈ before.tripleMentions ∧ m.2.file ≠ file
  entityGone : ∀ id, OnlyIn before.entityMentions file id → after.entities.get id = none
  tripleGone : ∀ id, OnlyIn before.tripleMentions file id → after.triples.get id = none
  entityKept : ∀ m ∈ before.entityMentions, m.2.file ≠ file →
    (before.entities.get m.1).isSome ∧ after.entities.get m.1 = before.entities.get m.1
  tripleKept : ∀ m ∈ before.tripleMentions, m.2.file ≠ file →
    (before.triples.get m.1).isSome ∧ after.triples.get m.1 = before.triples.get m.1

/-- What the clean-up of a file does to the nodes and the edges. -/
structure NodesCleaned (before after : PropertyGraph) (file : FileId) : Prop where
  chunkNodes : ∀ chunk, chunk ∈ after.chunkNodes ↔ chunk ∈ before.chunkNodes ∧ chunk.file ≠ file
  mentions : ∀ m, m ∈ after.mentions ↔ m ∈ before.mentions ∧ m.1.file ≠ file
  relations : ∀ r, r ∈ after.relations ↔ r ∈ before.relations ∧ r.chunk.file ≠ file
  entityGone : ∀ key, (∃ m ∈ before.mentions, m.2 = key) →
    (∀ m ∈ before.mentions, m.2 = key → m.1.file = file) → after.entityNodes.get key = none
  entityKept : ∀ m ∈ before.mentions, m.1.file ≠ file →
    (before.entityNodes.get m.2).isSome ∧ after.entityNodes.get m.2 = before.entityNodes.get m.2

/-- Nothing that the file alone supports is left, and everything else has the supports of the other
files. -/
structure LeavesNoResidue (before after : GraphState) (file : FileId) : Prop where
  tables : TablesCleaned before.tables after.tables file
  nodes : NodesCleaned before.graph after.graph file

/-! ## The tables -/

/-- Every triple is mentioned, and a chunk that mentions it mentions its endpoints. -/
structure TablesInv (σ : GraphTables) : Prop where
  keys : ForeignKeys σ
  tripleMentioned : ∀ id r, σ.triples.get id = some r → ∃ m ∈ σ.tripleMentions, m.1 = id
  endpoints : ∀ id r chunk, σ.triples.get id = some r → (id, chunk) ∈ σ.tripleMentions →
    (r.body.sourceEntityId, chunk) ∈ σ.entityMentions ∧
      (r.body.targetEntityId, chunk) ∈ σ.entityMentions

theorem TablesInv.empty : TablesInv .empty where
  keys := .empty
  tripleMentioned _ _ h := by cases h
  endpoints _ _ _ h := by cases h

section Tables

variable {σ σ' : GraphTables}

theorem TablesInv.sameRecords (h : TablesInv σ) (hsame : SameRecords σ σ') : TablesInv σ' where
  keys := h.keys.sameRecords hsame
  tripleMentioned id r hget := by
    obtain ⟨r₀, hr₀, -⟩ := exists_of_map_body_eq (hsame.triples id) hget
    rw [hsame.tripleMentions]
    exact h.tripleMentioned id r₀ hr₀
  endpoints id r chunk hget hmem := by
    obtain ⟨r₀, hr₀, hbody⟩ := exists_of_map_body_eq (hsame.triples id) hget
    rw [hsame.tripleMentions] at hmem
    rw [hsame.entityMentions, ← hbody]
    exact h.endpoints id r₀ chunk hr₀ hmem

variable {chunk : ChunkId} {triples : List TripleRecord} {id : RecordId} {r : GraphRow TripleBody}

/-- A triple after the write of a chunk: an old one, or one of the chunk. -/
theorem TriplesUpserted.cases (hup : TriplesUpserted σ σ' chunk triples)
    (hget : σ'.triples.get id = some r) :
    (∃ r₀, σ.triples.get id = some r₀ ∧ r.body.sourceEntityId = r₀.body.sourceEntityId ∧
      r.body.targetEntityId = r₀.body.targetEntityId) ∨
    ∃ t ∈ triples, t.tripleId = id ∧ t.sourceEntityId = r.body.sourceEntityId ∧
      t.targetEntityId = r.body.targetEntityId := by
  cases hold : σ.triples.get id with
  | none => exact Or.inr (hup.fresh id r hold hget).2
  | some r₀ =>
    obtain ⟨b, hb, hsource, htarget⟩ := hup.kept id r₀ hold
    rw [hb] at hget
    cases hget
    exact Or.inl ⟨r₀, rfl, hsource, htarget⟩

theorem TablesInv.upsertChunkGraph (h : TablesInv σ) {entities : List EntityRecord}
    (hends : ∀ t ∈ triples, t.sourceEntityId ∈ entities.map EntityRecord.entityId ∧
      t.targetEntityId ∈ entities.map EntityRecord.entityId)
    (hagree : endpointsAgree σ triples)
    (hup : upsertChunkGraph σ chunk entities triples = some σ') : TablesInv σ' := by
  have hkeys := h.keys.upsertChunkGraph hup
  obtain ⟨σ₁, hentities, htriples⟩ := upsertChunkGraph_cases hup
  refine ⟨hkeys, fun id r hget => ?_, fun id r c hget hmem => ?_⟩
  · rcases htriples.cases hget with ⟨r₀, hr₀, -, -⟩ | ⟨t, ht, rfl, -, -⟩
    · rw [hentities.triples] at hr₀
      obtain ⟨m, hm, hid⟩ := h.tripleMentioned id r₀ hr₀
      refine ⟨m, (htriples.mentions m).mpr (Or.inl ?_), hid⟩
      rw [hentities.tripleMentions]
      exact hm
    · refine ⟨(t.tripleId, chunk), (htriples.mentions _).mpr (Or.inr ⟨?_, rfl⟩), rfl⟩
      exact List.mem_map_of_mem ht
  · rw [htriples.entityMentions]
    -- a mention of the chunk itself comes with the endpoints of a triple of the chunk
    have hnew : ∀ t ∈ triples, t.sourceEntityId = r.body.sourceEntityId →
        t.targetEntityId = r.body.targetEntityId →
        (r.body.sourceEntityId, chunk) ∈ σ₁.entityMentions ∧
          (r.body.targetEntityId, chunk) ∈ σ₁.entityMentions := by
      intro t ht hsource htarget
      rw [← hsource, ← htarget]
      exact ⟨(hentities.mentions _).mpr (Or.inr ⟨(hends t ht).1, rfl⟩),
        (hentities.mentions _).mpr (Or.inr ⟨(hends t ht).2, rfl⟩)⟩
    rcases (htriples.mentions (id, c)).mp hmem with hold | ⟨hid, hc⟩
    · rw [hentities.tripleMentions] at hold
      obtain ⟨r₀, hr₀⟩ := Option.isSome_iff_exists.mp (h.keys.tripleRow _ hold)
      have hr₁ : σ₁.triples.get id = some r₀ := by
        rw [hentities.triples]
        exact hr₀
      obtain ⟨b, hb, hsource, htarget⟩ := htriples.kept id r₀ hr₁
      rw [hb] at hget
      cases hget
      have hboth := h.endpoints id r₀ c hr₀ hold
      simp only [hsource, htarget]
      exact ⟨(hentities.mentions _).mpr (Or.inl hboth.1),
        (hentities.mentions _).mpr (Or.inl hboth.2)⟩
    · simp only at hid hc
      subst hc
      rcases htriples.cases hget with ⟨r₀, hr₀, hsource, htarget⟩ | ⟨t, ht, -, hsource, htarget⟩
      · rw [hentities.triples] at hr₀
        obtain ⟨t, ht, htid⟩ := List.mem_map.mp hid
        have hsame := List.all_eq_true.mp hagree t ht
        rw [htid, hr₀] at hsame
        simp only [Option.all_some, Bool.and_eq_true, beq_iff_eq] at hsame
        exact hnew t ht (hsame.1.symm.trans hsource.symm) (hsame.2.symm.trans htarget.symm)
      · exact hnew t ht hsource htarget

theorem sharesMentions_iff (mentions : List Mention) (file : FileId) :
    sharesMentions mentions file ↔ ∀ id, ¬ OnlyIn mentions file id := by
  unfold sharesMentions OnlyIn
  simp only [List.all_eq_true, List.any_eq_true, Bool.or_eq_true, bne_iff_ne, Bool.and_eq_true,
    beq_iff_eq]
  constructor
  · rintro h id ⟨⟨m, hm, hid⟩, honly⟩
    rcases h m hm with hfile | ⟨m', hm', hsame, hfile⟩
    · exact hfile (honly m hm hid)
    · exact hfile (honly m' hm' (hsame.trans hid))
  · intro h m hm
    by_cases hfile : m.2.file = file
    · right
      by_contra hnone
      refine h m.1 ⟨⟨m, hm, rfl⟩, fun m' hm' hsame => ?_⟩
      by_contra hother
      exact hnone ⟨m', hm', hsame, hother⟩
    · exact Or.inl hfile

variable {file : FileId} {mentions : List Mention}

theorem exists_other_of_not_onlyIn {m : Mention} (hm : m ∈ mentions)
    (h : ¬ OnlyIn mentions file m.1) : ∃ m' ∈ mentions, m'.1 = m.1 ∧ m'.2.file ≠ file := by
  by_contra hnone
  apply h
  refine ⟨⟨m, hm, rfl⟩, fun m' hm' hid => ?_⟩
  by_contra hfile
  exact hnone ⟨m', hm', hid, hfile⟩

theorem exists_other_of_shares (h : sharesMentions mentions file) {m : Mention} (hm : m ∈ mentions) :
    ∃ m' ∈ mentions, m'.1 = m.1 ∧ m'.2.file ≠ file :=
  exists_other_of_not_onlyIn hm ((sharesMentions_iff mentions file).mp h m.1)

theorem isOrphan_of_onlyIn {id : RecordId} (h : OnlyIn mentions file id) :
    isOrphan mentions (mentionsOfOthers mentions file) file id := by
  obtain ⟨⟨m, hm, hid⟩, hall⟩ := h
  unfold isOrphan
  rw [Bool.and_eq_true, Bool.not_eq_true', List.any_eq_true, List.any_eq_false]
  constructor
  · exact ⟨m, hm, by simp [hid, hall m hm hid]⟩
  · intro m' hm'
    obtain ⟨hm', hfile⟩ := (mem_mentionsOfOthers _ _ _).mp hm'
    have hne : m'.1 ≠ id := fun hid' => hfile (hall m' hm' hid')
    simpa using hne

theorem sharesMentions_of_others (h : ∀ m ∈ mentions, m.2.file ≠ file) : sharesMentions mentions file := by
  rw [sharesMentions_iff]
  rintro id ⟨⟨m, hm, hid⟩, honly⟩
  exact h m hm (honly m hm hid)

theorem TablesInv.exists_other (h : TablesInv σ) (hget : σ.triples.get id = some r)
    (horphan : id ∉ orphanTripleIds σ file) :
    ∃ m ∈ σ.tripleMentions, m.1 = id ∧ m.2.file ≠ file := by
  obtain ⟨m, hm, rfl⟩ := h.tripleMentioned id r hget
  refine exists_other_of_not_onlyIn hm fun honly => horphan ?_
  rw [mem_orphanTripleIds, hget]
  exact ⟨rfl, isOrphan_of_onlyIn honly⟩

theorem TablesInv.references (h : TablesInv σ) (file : FileId) :
    TablesInv (deleteFileReferences σ file) := by
  refine ⟨h.keys.deleteFileReferences file, fun id r hget => ?_, fun id r chunk hget hmem => ?_⟩
  · rw [get_triples_deleteFileReferences] at hget
    split at hget
    · cases hget
    · rename_i horphan
      obtain ⟨m, hm, hid, hfile⟩ := h.exists_other hget horphan
      exact ⟨m, (mem_mentionsOfOthers _ _ _).mpr ⟨hm, hfile⟩, hid⟩
  · rw [get_triples_deleteFileReferences] at hget
    split at hget
    · cases hget
    · obtain ⟨hmem, hfile⟩ := (mem_mentionsOfOthers _ _ _).mp hmem
      have hboth := h.endpoints id r chunk hget hmem
      exact ⟨(mem_mentionsOfOthers _ _ _).mpr ⟨hboth.1, hfile⟩,
        (mem_mentionsOfOthers _ _ _).mpr ⟨hboth.2, hfile⟩⟩

theorem TablesInv.chunks (h : TablesInv σ) (hshares : sharesMentions σ.tripleMentions file) : TablesInv
    (deleteChunks σ file) := by
  refine ⟨h.keys.deleteChunks file, fun id r hget => ?_, fun id r chunk hget hmem => ?_⟩
  · obtain ⟨m, hm, hid⟩ := h.tripleMentioned id r hget
    obtain ⟨m', hm', hsame, hfile⟩ := exists_other_of_shares hshares hm
    exact ⟨m', (mem_tripleMentions_deleteChunks h.keys file m').mpr ⟨hm', hfile⟩, hsame.trans hid⟩
  · obtain ⟨hmem, hfile⟩ := (mem_tripleMentions_deleteChunks h.keys file _).mp hmem
    have hboth := h.endpoints id r chunk hget hmem
    exact ⟨(mem_entityMentions_deleteChunks h.keys file _).mpr ⟨hboth.1, hfile⟩,
      (mem_entityMentions_deleteChunks h.keys file _).mpr ⟨hboth.2, hfile⟩⟩

theorem TablesInv.deleteGraphRows (σ : GraphTables) : TablesInv (deleteGraphRows σ) where
  keys := .deleteGraphRows σ
  tripleMentioned _ _ h := by cases h
  endpoints _ _ _ h := by cases h

/-- An entity that the file alone mentions is an orphan: a triple that keeps it would be mentioned by
another file, and that chunk would mention the entity as well. -/
theorem TablesInv.mem_orphanEntityIds_of_onlyIn (h : TablesInv σ)
    (honly : OnlyIn σ.entityMentions file id) : id ∈ orphanEntityIds σ file := by
  have horphan := isOrphan_of_onlyIn honly
  obtain ⟨⟨m, hm, hid⟩, hall⟩ := honly
  rw [mem_orphanEntityIds]
  refine ⟨hid ▸ h.keys.entityRow m hm, horphan, fun htriple => ?_⟩
  unfold hasTriple at htriple
  obtain ⟨⟨t, r⟩, hrow, hend⟩ := List.any_eq_true.mp htriple
  have hget := (Table.mem_rows_iff _ _ _).mp hrow
  change (deleteFileReferences σ file).triples.get t = some r at hget
  rw [get_triples_deleteFileReferences] at hget
  split at hget
  · cases hget
  · rename_i horphan
    obtain ⟨m', hm', rfl, hfile⟩ := h.exists_other hget horphan
    have hboth := h.endpoints m'.1 r m'.2 hget hm'
    rw [Bool.or_eq_true, beq_iff_eq, beq_iff_eq] at hend
    rcases hend with hend | hend
    · exact hfile (hall (r.body.sourceEntityId, m'.2) hboth.1 hend)
    · exact hfile (hall (r.body.targetEntityId, m'.2) hboth.2 hend)

theorem tablesCleaned_of_references (h : TablesInv σ) (file : FileId) :
    TablesCleaned σ (deleteChunks (deleteFileReferences σ file) file) file := by
  have hkeys := h.keys.deleteFileReferences file
  constructor
  · intro m
    rw [mem_entityMentions_deleteChunks hkeys, and_iff_left_of_imp]
    · exact mem_mentionsOfOthers _ _ _
    · exact fun hm => ((mem_mentionsOfOthers _ _ _).mp hm).2
  · intro m
    rw [mem_tripleMentions_deleteChunks hkeys, and_iff_left_of_imp]
    · exact mem_mentionsOfOthers _ _ _
    · exact fun hm => ((mem_mentionsOfOthers _ _ _).mp hm).2
  · intro id honly
    change (deleteFileReferences σ file).entities.get id = none
    rw [get_entities_deleteFileReferences, if_pos (h.mem_orphanEntityIds_of_onlyIn honly)]
  · intro id honly
    change (deleteFileReferences σ file).triples.get id = none
    rw [get_triples_deleteFileReferences]
    split
    · rfl
    · rename_i horphan
      cases hget : σ.triples.get id with
      | none => rfl
      | some r =>
        obtain ⟨m, hm, hid, hfile⟩ := h.exists_other hget horphan
        exact absurd (honly.2 m hm hid) hfile
  · intro m hm hfile
    change _ ∧ (deleteFileReferences σ file).entities.get m.1 = _
    rw [get_entities_deleteFileReferences, if_neg (not_mem_orphanEntityIds hm hfile)]
    exact ⟨h.keys.entityRow m hm, rfl⟩
  · intro m hm hfile
    change _ ∧ (deleteFileReferences σ file).triples.get m.1 = _
    rw [get_triples_deleteFileReferences, if_neg (not_mem_orphanTripleIds hm hfile)]
    exact ⟨h.keys.tripleRow m hm, rfl⟩

theorem tablesCleaned_deleteChunks_iff (h : ForeignKeys σ) (file : FileId) :
    TablesCleaned σ (deleteChunks σ file) file ↔
      sharesMentions σ.entityMentions file ∧ sharesMentions σ.tripleMentions file := by
  rw [sharesMentions_iff, sharesMentions_iff]
  constructor
  · intro hclean
    constructor
    · rintro id ⟨⟨m, hm, rfl⟩, hall⟩
      have hnone : σ.entities.get m.1 = none := hclean.entityGone _ ⟨⟨m, hm, rfl⟩, hall⟩
      exact absurd (h.entityRow m hm) (by simp [hnone])
    · rintro id ⟨⟨m, hm, rfl⟩, hall⟩
      have hnone : σ.triples.get m.1 = none := hclean.tripleGone _ ⟨⟨m, hm, rfl⟩, hall⟩
      exact absurd (h.tripleRow m hm) (by simp [hnone])
  · rintro ⟨hentities, htriples⟩
    exact
      { entityMentions := mem_entityMentions_deleteChunks h file
        tripleMentions := mem_tripleMentions_deleteChunks h file
        entityGone := fun id honly => absurd honly (hentities id)
        tripleGone := fun id honly => absurd honly (htriples id)
        entityKept := fun m hm _ => ⟨h.entityRow m hm, rfl⟩
        tripleKept := fun m hm _ => ⟨h.tripleRow m hm, rfl⟩ }

end Tables

/-! ## The nodes and the edges -/

/-- Mentions have their nodes, and a chunk with a relation mentions its endpoints. -/
structure NodesInv (n : PropertyGraph) : Prop where
  mentionNodes : ∀ m ∈ n.mentions, m.1 ∈ n.chunkNodes ∧ (n.entityNodes.get m.2).isSome
  relationMentions : ∀ r ∈ n.relations,
    (r.chunk, r.source) ∈ n.mentions ∧ (r.chunk, r.target) ∈ n.mentions

theorem NodesInv.empty : NodesInv .empty where
  mentionNodes _ h := by cases h
  relationMentions _ h := by cases h

section Nodes

variable {n : PropertyGraph} {chunk : ChunkId}

theorem NodesInv.mergeChunk (h : NodesInv n) (chunk : ChunkId) : NodesInv (mergeChunk n chunk) where
  mentionNodes m hm :=
    ⟨(mem_merge _ _ _).mpr (Or.inl (h.mentionNodes m hm).1), (h.mentionNodes m hm).2⟩
  relationMentions := h.relationMentions

/-- The mentions of the entities of a chunk are added, and none is lost. -/
theorem mergeEntityMention_of_mem (g : GraphNaming) (hchunk : chunk ∈ n.chunkNodes)
    (e : GraphEntity) :
    chunk ∈ (mergeEntityMention g chunk n e).chunkNodes ∧
      ∀ m, m ∈ (mergeEntityMention g chunk n e).mentions ↔ m ∈ n.mentions ∨ m = (chunk, e.key g) := by
  unfold mergeEntityMention
  rw [if_pos hchunk]
  exact ⟨hchunk, fun m => mem_merge _ _ _⟩

section

variable (h : NodesInv n)
include h

variable (g : GraphNaming)

theorem NodesInv.mergeEntityMention (hchunk : chunk ∈ n.chunkNodes) (e : GraphEntity) :
    NodesInv (mergeEntityMention g chunk n e) := by
  unfold KnowledgeGraph.mergeEntityMention
  rw [if_pos hchunk]
  constructor
  · intro m hm
    simp only [Table.get_upsert]
    rcases (mem_merge _ _ _).mp hm with hm | rfl
    · refine ⟨(h.mentionNodes m hm).1, ?_⟩
      split
      · rfl
      · exact (h.mentionNodes m hm).2
    · exact ⟨hchunk, by simp⟩
  · intro r hr
    have hboth := h.relationMentions r hr
    exact ⟨(mem_merge _ _ _).mpr (Or.inl hboth.1), (mem_merge _ _ _).mpr (Or.inl hboth.2)⟩

theorem NodesInv.foldl_mergeEntityMention (hchunk : chunk ∈ n.chunkNodes)
    (entities : List GraphEntity) :
    NodesInv (entities.foldl (KnowledgeGraph.mergeEntityMention g chunk) n) ∧
      ∀ key, (chunk, key) ∈ n.mentions ∨ key ∈ entities.map (GraphEntity.key g) → (chunk, key) ∈
          (entities.foldl (KnowledgeGraph.mergeEntityMention g chunk) n).mentions := by
  induction entities generalizing n with
  | nil => exact ⟨h, by simp⟩
  | cons e entities ih =>
    obtain ⟨hchunk', hmentions⟩ := mergeEntityMention_of_mem g hchunk e
    obtain ⟨hinv, hkeys⟩ := ih (h.mergeEntityMention g hchunk e) hchunk'
    refine ⟨hinv, fun key hkey => hkeys key ?_⟩
    rw [hmentions]
    rcases hkey with hkey | hkey
    · exact Or.inl (Or.inl hkey)
    · rcases List.mem_cons.mp hkey with rfl | hkey
      · exact Or.inl (Or.inr rfl)
      · exact Or.inr hkey

theorem NodesInv.mergeRelation {r : GraphRelation}
    (hsource : (chunk, r.source) ∈ n.mentions) (htarget : (chunk, r.target) ∈ n.mentions) :
    NodesInv (mergeRelation chunk n r) ∧ (mergeRelation chunk n r).mentions = n.mentions := by
  unfold KnowledgeGraph.mergeRelation
  split
  · refine ⟨⟨h.mentionNodes, fun r' hr' => ?_⟩, rfl⟩
    rcases (mem_merge _ _ _).mp hr' with hr' | rfl
    · exact h.relationMentions r' hr'
    · exact ⟨hsource, htarget⟩
  · exact ⟨h, rfl⟩

theorem NodesInv.foldl_mergeRelation (relations : List GraphRelation)
    (hends : ∀ r ∈ relations, (chunk, r.source) ∈ n.mentions ∧ (chunk, r.target) ∈ n.mentions) :
    NodesInv (relations.foldl (KnowledgeGraph.mergeRelation chunk) n) := by
  induction relations generalizing n with
  | nil => exact h
  | cons r relations ih =>
    have hr := hends r (List.mem_cons_self ..)
    obtain ⟨hinv, hmentions⟩ := h.mergeRelation hr.1 hr.2
    apply ih hinv
    intro r' hr'
    rw [hmentions]
    exact hends r' (List.mem_cons_of_mem _ hr')

theorem NodesInv.writeChunkGraph (chunk : ChunkId) (extraction : Extraction) :
    NodesInv (writeChunkGraph g n chunk (buildGraphPayload g extraction)) := by
  have hchunk : chunk ∈ (KnowledgeGraph.mergeChunk n chunk).chunkNodes :=
    (mem_merge _ _ _).mpr (Or.inr rfl)
  obtain ⟨hinv, hkeys⟩ := (h.mergeChunk chunk).foldl_mergeEntityMention g hchunk
    (buildGraphPayload g extraction).entities
  apply hinv.foldl_mergeRelation
  intro r hr
  have hends := endpoints_mem_entities g extraction hr
  exact ⟨hkeys _ (Or.inr hends.1), hkeys _ (Or.inr hends.2)⟩

end

theorem mentionedOnlyBy_iff (n : PropertyGraph) (file : FileId) (key : EntityKey) :
    mentionedOnlyBy n file key ↔ (∃ m ∈ n.mentions, m.2 = key) ∧
      ∀ m ∈ n.mentions, m.2 = key → m.1.file = file := by
  unfold mentionedOnlyBy
  rw [Bool.and_eq_true, Bool.not_eq_true', List.any_eq_true, List.any_eq_false]
  simp only [Bool.and_eq_true, beq_iff_eq, bne_iff_ne, ne_eq]
  constructor
  · rintro ⟨⟨m, hm, -, hkey⟩, hall⟩
    refine ⟨⟨m, hm, hkey⟩, fun m' hm' hkey' => ?_⟩
    by_contra hfile
    exact hall m' hm' ⟨hfile, hkey'⟩
  · rintro ⟨⟨m, hm, hkey⟩, hall⟩
    exact ⟨⟨m, hm, hall m hm hkey, hkey⟩, fun m' hm' h => h.1 (hall m' hm' h.2)⟩

theorem not_mentionedOnlyBy {file : FileId} {m : ChunkId × EntityKey} (hm : m ∈ n.mentions)
    (hfile : m.1.file ≠ file) : mentionedOnlyBy n file m.2 = false := by
  rw [← Bool.not_eq_true, mentionedOnlyBy_iff]
  rintro ⟨-, hall⟩
  exact hfile (hall m hm rfl)

@[simp]
theorem mem_mentions_deleteFileNodes (n : PropertyGraph) (file : FileId) (m : ChunkId × EntityKey) :
    m ∈ (deleteFileNodes n file).mentions ↔ m ∈ n.mentions ∧ m.1.file ≠ file := by
  simp [deleteFileNodes]

/-- A relation of another chunk is kept, since that chunk mentions its endpoints. -/
theorem NodesInv.mem_relations_deleteFileNodes (h : NodesInv n) (file : FileId) (r : RelationEdge) :
    r ∈ (deleteFileNodes n file).relations ↔ r ∈ n.relations ∧ r.chunk.file ≠ file := by
  unfold deleteFileNodes
  rw [List.mem_filter]
  apply and_congr_right
  intro hr
  have hboth := h.relationMentions r hr
  by_cases hfile : r.chunk.file = file
  · simp [hfile]
  · simp [hfile, not_mentionedOnlyBy (m := (r.chunk, r.source)) hboth.1 hfile,
      not_mentionedOnlyBy (m := (r.chunk, r.target)) hboth.2 hfile]

theorem NodesInv.deleteFileNodes (h : NodesInv n) (file : FileId) :
    NodesInv (deleteFileNodes n file) := by
  constructor
  · intro m hm
    obtain ⟨hm, hfile⟩ := (mem_mentions_deleteFileNodes n file m).mp hm
    constructor
    · exact List.mem_filter.mpr ⟨(h.mentionNodes m hm).1, by simpa using hfile⟩
    · rw [KnowledgeGraph.deleteFileNodes, Table.get_restrict, not_mentionedOnlyBy hm hfile]
      exact (h.mentionNodes m hm).2
  · intro r hr
    obtain ⟨hr, hfile⟩ := (h.mem_relations_deleteFileNodes file r).mp hr
    have hboth := h.relationMentions r hr
    exact ⟨(mem_mentions_deleteFileNodes _ _ _).mpr ⟨hboth.1, hfile⟩,
      (mem_mentions_deleteFileNodes _ _ _).mpr ⟨hboth.2, hfile⟩⟩

theorem nodesCleaned_deleteFileNodes (h : NodesInv n) (file : FileId) :
    NodesCleaned n (deleteFileNodes n file) file where
  chunkNodes chunk := by simp [deleteFileNodes]
  mentions := mem_mentions_deleteFileNodes n file
  relations := h.mem_relations_deleteFileNodes file
  entityGone key hsome hall := by
    have honly := (mentionedOnlyBy_iff n file key).mpr ⟨hsome, hall⟩
    rw [deleteFileNodes, Table.get_restrict, honly]
    rfl
  entityKept m hm hfile := by
    rw [deleteFileNodes, Table.get_restrict, not_mentionedOnlyBy hm hfile]
    exact ⟨(h.mentionNodes m hm).2, rfl⟩

theorem nodesCleaned_self_iff (h : NodesInv n) (file : FileId) :
    NodesCleaned n n file ↔ ∀ chunk ∈ n.chunkNodes, chunk.file ≠ file := by
  constructor
  · intro hclean chunk hchunk
    exact ((hclean.chunkNodes chunk).mp hchunk).2
  · intro hnone
    have hmentions : ∀ m ∈ n.mentions, m.1.file ≠ file := fun m hm =>
      hnone _ (h.mentionNodes m hm).1
    constructor
    · exact fun chunk => (and_iff_left_of_imp (hnone chunk)).symm
    · exact fun m => (and_iff_left_of_imp (hmentions m)).symm
    · intro r
      refine (and_iff_left_of_imp fun hr => ?_).symm
      exact hmentions _ (h.relationMentions r hr).1
    · rintro key ⟨m, hm, hkey⟩ hall
      exact absurd (hall m hm hkey) (hmentions m hm)
    · exact fun m hm _ => ⟨(h.mentionNodes m hm).2, rfl⟩

end Nodes

/-! ## Steps -/

/-- The invariant of the tables and the one of the graph. -/
structure GraphInv (σ : GraphState) : Prop where
  tables : TablesInv σ.tables
  nodes : NodesInv σ.graph

section Steps

variable {g : GraphNaming} {σ : GraphState}

theorem GraphInv.sameRecords (h : GraphInv σ) {tables : GraphTables}
    (hsame : SameRecords σ.tables tables) : GraphInv { σ with tables } :=
  ⟨h.tables.sameRecords hsame, h.nodes⟩

theorem writeChunk_inv (h : GraphInv σ) (chunk : ChunkId) (stage : WriteStage)
    (hmeets : meets g σ (.writeChunk chunk stage)) : GraphInv (writeChunk g σ chunk stage) := by
  unfold writeChunk
  simp only [meets] at hmeets
  cases hpayload : payloadOf g σ.tables chunk with
  | none => exact h
  | some payload =>
    rw [hpayload] at hmeets
    obtain ⟨extraction, -, rfl⟩ := Option.map_eq_some_iff.mp hpayload
    have hnodes := h.nodes.writeChunkGraph g chunk extraction
    simp only [writePayload]
    split
    · exact ⟨h.tables, hnodes⟩
    · split
      · exact ⟨h.tables, hnodes⟩
      · rename_i tables hup
        have htables := h.tables.upsertChunkGraph
          (fun _ ht => endpoints_mem_buildEntityRecords g extraction ht) hmeets hup
        split
        · exact ⟨htables, hnodes⟩
        · exact ⟨htables.sameRecords (SameRecords.modifyChunk _ _ _), hnodes⟩

theorem reset_inv (h : GraphInv σ) (clearExtractionResult : Bool) (stage : ResetStage) :
    GraphInv (reset σ clearExtractionResult stage) := by
  cases stage with
  | graphDeleted => exact ⟨h.tables, .empty⟩
  | rowsDeleted => exact ⟨.deleteGraphRows _, .empty⟩
  | returned =>
    exact ⟨(TablesInv.deleteGraphRows _).sameRecords (SameRecords.mapChunks _ _), .empty⟩

/-- A deletion of a file that cleans up keeps the invariant at whatever stage it fails. -/
theorem deleteFileChunksOnly_inv (h : GraphInv σ) (file : FileId) (stage : DeleteStage)
    (hclean : cleansUp σ file) : GraphInv (deleteFileChunksOnly σ file stage) := by
  unfold deleteFileChunksOnly
  by_cases hcount : countGraphIndexed σ.tables file = 0
  · have hshares : sharesMentions σ.tables.tripleMentions file := by
      unfold cleansUp at hclean
      rw [hcount, Bool.or_eq_true, Bool.and_eq_true] at hclean
      rcases hclean with hclean | hclean
      · cases hclean
      · exact hclean.2
    simp only [hcount, ne_eq, not_true_eq_false, if_false]
    split
    · exact ⟨h.tables.chunks hshares, h.nodes⟩
    · exact h
  · simp only [ne_eq, hcount, not_false_eq_true, if_true, deleteFileGraph]
    have hreferences := h.tables.references file
    have hothers : sharesMentions (deleteFileReferences σ.tables file).tripleMentions file :=
      sharesMentions_of_others fun m hm => ((mem_mentionsOfOthers _ _ _).mp hm).2
    cases stage with
    | referencesDeleted => exact ⟨hreferences, h.nodes⟩
    | graphDeleted => exact ⟨hreferences, h.nodes.deleteFileNodes file⟩
    | returned => exact ⟨hreferences.chunks hothers, h.nodes.deleteFileNodes file⟩

theorem graphStep_inv (σ : GraphState) (a : GraphAction) (hmeets : meets g σ a = true)
    (h : GraphInv σ) : GraphInv (graphStep g σ a) := by
  cases a with
  | storeChunk chunk => exact h.sameRecords (.storeChunk _ _)
  | extract chunk result => exact h.sameRecords (.modifyChunk _ _ _)
  | writeChunk chunk stage => exact writeChunk_inv h chunk stage hmeets
  | claim recordType now lease limit token =>
    exact h.sameRecords (.updateVectorsOf _ _ _ _)
  | markIndexed recordType ids token =>
    exact h.sameRecords (.updateVectorsOf _ _ _ _)
  | markFailed recordType ids token now error =>
    exact h.sameRecords (.updateVectorsOf _ _ _ _)
  | finalize => exact h.sameRecords (.mapChunks _ _)
  | reconcile now allVectors => exact h.sameRecords (.reconcileVectorRecords _ _ _)
  | reset clearExtractionResult stage => exact reset_inv h clearExtractionResult stage
  | deleteFile file stage => exact deleteFileChunksOnly_inv h file stage hmeets

theorem leavesNoResidue_iff (h : GraphInv σ) (file : FileId) :
    LeavesNoResidue σ (deleteFileChunksOnly σ file .returned) file ↔ cleansUp σ file = true := by
  unfold deleteFileChunksOnly cleansUp
  by_cases hcount : countGraphIndexed σ.tables file = 0
  · simp only [hcount, ne_eq, not_true_eq_false, if_false, if_true, bne_self_eq_false,
      Bool.false_or, Bool.and_eq_true, List.all_eq_true, bne_iff_ne]
    constructor
    · intro hclean
      obtain ⟨hentities, htriples⟩ :=
        (tablesCleaned_deleteChunks_iff h.tables.keys file).mp hclean.tables
      exact ⟨⟨(nodesCleaned_self_iff h.nodes file).mp hclean.nodes, hentities⟩, htriples⟩
    · rintro ⟨⟨hnodes, hentities⟩, htriples⟩
      exact ⟨(tablesCleaned_deleteChunks_iff h.tables.keys file).mpr ⟨hentities, htriples⟩,
        (nodesCleaned_self_iff h.nodes file).mpr hnodes⟩
  · have hgate : (countGraphIndexed σ.tables file != 0) = true := by simpa using hcount
    simp only [ne_eq, hcount, not_false_eq_true, if_true, deleteFileGraph, hgate, Bool.true_or,
      iff_true]
    exact ⟨tablesCleaned_of_references h.tables file, nodesCleaned_deleteFileNodes h.nodes file⟩

end Steps

/-! ## Runs -/

/-- After a run whose steps all meet the condition, the deletion of a file leaves no residue exactly
when it meets the condition itself. -/
theorem leavesNoResidue_iff_of_run (g : GraphNaming) (as : List GraphAction)
    (hmeets : Transition.Guarded (graphStep g) (fun σ a => meets g σ a = true) .empty as)
    (file : FileId) :
    LeavesNoResidue (Transition.exec (graphStep g) .empty as)
      (deleteFileChunksOnly (Transition.exec (graphStep g) .empty as) file .returned) file ↔
        cleansUp (Transition.exec (graphStep g) .empty as) file = true := by
  have hinv : GraphInv (Transition.exec (graphStep g) .empty as) :=
    Transition.exec_invariant_of_guarded (graphStep g) graphStep_inv ⟨.empty, .empty⟩ hmeets
  exact leavesNoResidue_iff hinv file

/-! ## Sample runs -/

/-- A file whose chunk has been extracted and written, but not indexed. -/
def structureIndexed (file : FileId) (result : Extraction) : List GraphAction :=
  [.storeChunk (sampleChunk file), .extract (sampleChunk file) result,
    .writeChunk (sampleChunk file) .marked]

/-- The vectors of all records are built. -/
def vectorsIndexed : List GraphAction :=
  [.claim .entity 0 900 64 1, .claim .triple 0 900 64 2,
    .markIndexed .entity
      ["c059d2d422eea5b193847525bc4cc3b7", "46a73cc0e128d29a7c9dafed41ffc804"] 1,
    .markIndexed .triple ["14b5e6490342b8458f6fd21878685e48"] 2, .finalize]

/-- One file mentions a triple and the other one of its endpoints. -/
def sampleExtraction : Extraction where
  entities := [sampleEntity "ada", sampleEntity "bob"]
  relations := [{ source := sampleEntity "ada", target := sampleEntity "bob", label := "KNOWS" }]

def twoFiles : List GraphAction :=
  structureIndexed "file_a" sampleExtraction ++
    structureIndexed "file_b" { entities := [sampleEntity "ada"], relations := [] } ++
      vectorsIndexed

/-- The first file is deleted without a residue, and so is the second one after it. -/
theorem twoFiles_leave_no_residue :
    LeavesNoResidue
      (Transition.exec (graphStep sampleNaming) .empty
        (twoFiles ++ [.deleteFile "file_a" .returned]))
      (deleteFileChunksOnly
        (Transition.exec (graphStep sampleNaming) .empty
          (twoFiles ++ [.deleteFile "file_a" .returned])) "file_b" .returned) "file_b" :=
  (leavesNoResidue_iff_of_run sampleNaming (twoFiles ++ [.deleteFile "file_a" .returned])
    (by decide +kernel) "file_b").mpr (by decide +kernel)

/-- A file whose chunk has been written but not indexed is deleted: the chunk and the entity stay in
Neo4j, and the row of the entity stays without a mention. -/
theorem structureIndexed_leaves_residue :
    let before := Transition.exec (graphStep sampleNaming) .empty
      (structureIndexed "file_a" { entities := [sampleEntity "ada"], relations := [] })
    let after := deleteFileChunksOnly before "file_a" .returned
    after.graph.chunkNodes = [sampleChunk "file_a"] ∧
      after.graph.mentions.length = 1 ∧ after.tables.entities.rows.length = 1 ∧
        after.tables.entityMentions = [] ∧ after.tables.chunks.rows = [] ∧
          ¬ LeavesNoResidue before after "file_a" := by
  refine ⟨by decide +kernel, by decide +kernel, by decide +kernel, by decide +kernel,
    by decide +kernel, fun h => ?_⟩
  have hchunk : sampleChunk "file_a" ∈ (deleteFileChunksOnly
      (Transition.exec (graphStep sampleNaming) .empty
        (structureIndexed "file_a" { entities := [sampleEntity "ada"], relations := [] }))
      "file_a" .returned).graph.chunkNodes := by
    decide +kernel
  exact ((h.nodes.chunkNodes _).mp hchunk).2 rfl

end Yuanlei.KnowledgeGraph
