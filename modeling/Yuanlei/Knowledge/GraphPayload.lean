import Yuanlei.Lib.PyText

/-!
# The graph of a chunk

An extractor finds entities and relations in the text of a chunk.  Entities that have the same
normalised name and label are one entity, and the endpoints of a relation are entities of the same
chunk.  The records that are written to PostgreSQL are addressed by hashes of their names.

Main results:

- `endpoints_mem_buildEntityRecords`: the endpoints of every triple of a chunk are among
  its entities.
-/

namespace Yuanlei.KnowledgeGraph

abbrev RecordId := String

/-! ## Extraction results -/

structure EntityAttribute where
  text : String
  label : String
deriving DecidableEq

/-- An entity of a normalised extraction result; a missing label is the empty string. -/
structure ExtractedEntity where
  text : String
  label : String
  attributes : List EntityAttribute
deriving DecidableEq

structure ExtractedRelation where
  source : ExtractedEntity
  target : ExtractedEntity
  label : String
deriving DecidableEq

/-- A normalised extraction result. -/
structure Extraction where
  entities : List ExtractedEntity
  relations : List ExtractedRelation
deriving DecidableEq

/-! ## Names and identifiers -/

/-- The normalised name and the label. -/
structure EntityKey where
  normalizedName : String
  label : String
deriving DecidableEq

/-- The knowledge base, `str.lower` and the hexadecimal digest of a text. -/
structure GraphNaming where
  kbId : String
  lower : String → String
  hexdigest : List Char → List Char

variable (g : GraphNaming)

namespace GraphNaming

def normalizeEntityName (text : String) : String :=
  let words := PyText.words (g.lower (PyText.strip text)).toList
  " ".intercalate (words.map String.ofList)

/-- `hashstr` with 32 digits. -/
def hashstr (text : String) : RecordId :=
  String.ofList ((g.hexdigest text.toList).take 32)

def computeEntityId (normalizedName label : String) : RecordId :=
  g.hashstr s!"{g.kbId}:{normalizedName}:{label}"

def computeTripleId (source : EntityKey) (relationType : String) (target : EntityKey) : RecordId :=
  let sourceText := s!"{source.normalizedName}:{source.label}"
  let targetText := s!"{target.normalizedName}:{target.label}"
  g.hashstr s!"{g.kbId}:{sourceText}:{relationType}:{targetText}"

end GraphNaming

/-- A label, or the default when it is empty. -/
def labelOr (default label : String) : String :=
  if label = "" then default else label

/-- The key under which `build_graph_payload` collects an entity. -/
def ExtractedEntity.key (entity : ExtractedEntity) : EntityKey where
  normalizedName := g.normalizeEntityName entity.text
  label := labelOr "Entity" entity.label

/-! ## Payload -/

structure GraphEntity where
  text : String
  label : String
  attributes : List EntityAttribute
deriving DecidableEq

/-- The source and the target are given by their keys, of which there is one for each of the local
identifiers `e1`, `e2` and so on. -/
structure GraphRelation where
  source : EntityKey
  target : EntityKey
  label : String
deriving DecidableEq

structure GraphPayload where
  entities : List GraphEntity
  relations : List GraphRelation
deriving DecidableEq

def GraphEntity.key (entity : GraphEntity) : EntityKey where
  normalizedName := g.normalizeEntityName entity.text
  label := entity.label

/-- The attributes that an entity does not have yet are added to it. -/
def mergeAttributes (existing attributes : List EntityAttribute) : List EntityAttribute :=
  attributes.foldl (fun known a => if a ∈ known then known else known ++ [a]) existing

def addEntity (entities : List GraphEntity) (entity : ExtractedEntity) : List GraphEntity :=
  if entity.key g ∈ entities.map (GraphEntity.key g) then
    entities.map fun e =>
      if e.key g = entity.key g then
        { e with attributes := mergeAttributes e.attributes entity.attributes }
      else e
  else
    entities ++
      [{ text := entity.text
         label := labelOr "Entity" entity.label
         attributes := entity.attributes }]

def buildGraphPayload (extraction : Extraction) : GraphPayload where
  entities :=
    extraction.relations.foldl
      (fun entities r => addEntity g (addEntity g entities r.source) r.target)
      (extraction.entities.foldl (addEntity g) [])
  relations := extraction.relations.map fun r =>
    { source := r.source.key g
      target := r.target.key g
      label := labelOr "RELATED_TO" r.label }

/-! ## Records -/

structure EntityRecord where
  entityId : RecordId
  normalizedName : String
  label : String
  name : String
  attributes : List EntityAttribute
deriving DecidableEq

structure TripleRecord where
  tripleId : RecordId
  sourceEntityId : RecordId
  targetEntityId : RecordId
  relationType : String
  content : String
deriving DecidableEq

def buildEntityRecords (entities : List GraphEntity) : List EntityRecord :=
  entities.map fun e =>
    { entityId := g.computeEntityId (e.key g).normalizedName (e.key g).label
      normalizedName := (e.key g).normalizedName
      label := e.label
      name := e.text
      attributes := e.attributes }

def tripleRecord (r : GraphRelation) : TripleRecord where
  tripleId := g.computeTripleId r.source r.label r.target
  sourceEntityId := g.computeEntityId r.source.normalizedName r.source.label
  targetEntityId := g.computeEntityId r.target.normalizedName r.target.label
  relationType := r.label
  content := s!"{r.source.normalizedName} → {r.label} → {r.target.normalizedName}"

/-- `_build_triple_records`: one record for each identifier. -/
def buildTripleRecords (relations : List GraphRelation) : List TripleRecord :=
  relations.foldl
    (fun records r =>
      if (tripleRecord g r).tripleId ∈ records.map TripleRecord.tripleId then records
      else records ++ [tripleRecord g r])
    []

/-! ## The endpoints of relations -/

@[simp]
theorem key_with_attributes (e : GraphEntity) (attributes : List EntityAttribute) :
    GraphEntity.key g { e with attributes } = e.key g :=
  rfl

theorem mem_keys_addEntity (entities : List GraphEntity) (entity : ExtractedEntity)
    (key : EntityKey) :
    key ∈ (addEntity g entities entity).map (GraphEntity.key g) ↔
      key ∈ entities.map (GraphEntity.key g) ∨ key = entity.key g := by
  unfold addEntity
  split
  · rename_i hmem
    have hkeys : (entities.map fun e =>
        if e.key g = entity.key g then
          { e with attributes := mergeAttributes e.attributes entity.attributes }
        else e).map (GraphEntity.key g) = entities.map (GraphEntity.key g) := by
      rw [List.map_map]
      apply List.map_congr_left
      intro e _
      simp only [Function.comp_apply]
      split <;> rfl
    rw [hkeys]
    constructor
    · exact Or.inl
    · rintro (h | rfl)
      · exact h
      · exact hmem
  · rw [List.map_append, List.mem_append]
    simp [GraphEntity.key, ExtractedEntity.key]

theorem mem_keys_foldl_relations (relations : List ExtractedRelation)
    (entities : List GraphEntity) (key : EntityKey)
    (h : key ∈ entities.map (GraphEntity.key g) ∨
      ∃ r ∈ relations, key = r.source.key g ∨ key = r.target.key g) :
    key ∈ (relations.foldl
      (fun entities r => addEntity g (addEntity g entities r.source) r.target) entities).map
        (GraphEntity.key g) := by
  induction relations generalizing entities with
  | nil => simpa using h
  | cons r relations ih =>
    rw [List.foldl_cons]
    apply ih
    rw [mem_keys_addEntity, mem_keys_addEntity]
    rcases h with h | ⟨r', hr', hkey⟩
    · exact Or.inl (Or.inl (Or.inl h))
    · rcases List.mem_cons.mp hr' with rfl | hr'
      · rcases hkey with hkey | hkey
        · exact Or.inl (Or.inl (Or.inr hkey))
        · exact Or.inl (Or.inr hkey)
      · exact Or.inr ⟨r', hr', hkey⟩

variable (extraction : Extraction)

theorem endpoints_mem_entities {r : GraphRelation}
    (h : r ∈ (buildGraphPayload g extraction).relations) :
    r.source ∈ (buildGraphPayload g extraction).entities.map (GraphEntity.key g) ∧
      r.target ∈ (buildGraphPayload g extraction).entities.map (GraphEntity.key g) := by
  obtain ⟨relation, hmem, rfl⟩ := List.mem_map.mp h
  constructor
  · exact mem_keys_foldl_relations g _ _ _ (Or.inr ⟨relation, hmem, Or.inl rfl⟩)
  · exact mem_keys_foldl_relations g _ _ _ (Or.inr ⟨relation, hmem, Or.inr rfl⟩)

variable {record : TripleRecord}

theorem exists_relation_of_mem_buildTripleRecords (relations : List GraphRelation)
    (h : record ∈ buildTripleRecords g relations) :
    ∃ r ∈ relations, record = tripleRecord g r := by
  unfold buildTripleRecords at h
  induction relations using List.reverseRecOn with
  | nil => simp at h
  | append_singleton relations r ih =>
    rw [List.foldl_append, List.foldl_cons, List.foldl_nil] at h
    split at h
    · obtain ⟨r', hr', heq⟩ := ih h
      exact ⟨r', List.mem_append_left _ hr', heq⟩
    · rcases List.mem_append.mp h with h | h
      · obtain ⟨r', hr', heq⟩ := ih h
        exact ⟨r', List.mem_append_left _ hr', heq⟩
      · exact ⟨r, by simp, List.mem_singleton.mp h⟩

theorem endpoints_mem_buildEntityRecords
    (h : record ∈ buildTripleRecords g (buildGraphPayload g extraction).relations) :
    let ids := (buildEntityRecords g (buildGraphPayload g extraction).entities).map
      EntityRecord.entityId
    record.sourceEntityId ∈ ids ∧ record.targetEntityId ∈ ids := by
  obtain ⟨r, hr, rfl⟩ := exists_relation_of_mem_buildTripleRecords g _ h
  have hends := endpoints_mem_entities g extraction hr
  have hid : ∀ key ∈ (buildGraphPayload g extraction).entities.map (GraphEntity.key g),
      g.computeEntityId key.normalizedName key.label ∈
        (buildEntityRecords g (buildGraphPayload g extraction).entities).map
          EntityRecord.entityId := by
    intro key hkey
    obtain ⟨e, he, rfl⟩ := List.mem_map.mp hkey
    simp only [buildEntityRecords, List.map_map, List.mem_map, Function.comp_apply]
    exact ⟨e, he, rfl⟩
  exact ⟨hid _ hends.1, hid _ hends.2⟩

/-! ## Sample names -/

/-- The digests of a sample. -/
def sampleDigests : List (List Char × List Char) :=
  [("kb_1:ada:Person".toList,
      "c059d2d422eea5b193847525bc4cc3b7ffcae790fb41a05fbc7e10edf215367f".toList),
    ("kb_1:bob:Person".toList,
      "46a73cc0e128d29a7c9dafed41ffc804e3f5b4e6df42130eb8850328dc122c50".toList),
    ("kb_1:ada:Person:KNOWS:bob:Person".toList,
      "14b5e6490342b8458f6fd21878685e48b7ac0920dfef30a8a4d085d64c9897ef".toList)]

def sampleNaming : GraphNaming where
  kbId := "kb_1"
  lower := id
  hexdigest text := (sampleDigests.lookup text).getD text

def sampleEntity (name : String) : ExtractedEntity where
  text := name
  label := "Person"
  attributes := []

/-- Names that differ in case or white space are one entity. -/
example : sampleNaming.normalizeEntityName "  ada \t lovelace" = "ada lovelace" := by decide +kernel

end Yuanlei.KnowledgeGraph
