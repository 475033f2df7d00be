import Mathlib.Data.List.Forall2
import Mathlib.Data.List.Nodup
import Yuanlei.Knowledge.GraphPayload

/-!
# What the identifiers of a graph separate

The entities of a payload are told apart by their normalised names and labels, and the records by
hashes of texts in which colons join the names and labels.  The parts may contain colons themselves,
so that different parts can make up one text.

Main results:

- `collected_addEntities`: what `add_entity` collects from a list of entities.
- `numberPayload_spec`: the local identifiers of the relations.
- `identifiers_separate_iff`: when the identifiers separate what the graph separates.
-/

namespace Yuanlei.KnowledgeGraph

/-! ## Joining parts with colons -/

section Join

variable {α : Type} [DecidableEq α] {parts : List (List α)}

theorem splitOn_intercalate_eq (c : α) (h : parts ≠ []) :
    ([c].intercalate parts).splitOn c = parts.flatMap (List.splitOn c) := by
  induction parts with
  | nil => exact absurd rfl h
  | cons part parts ih =>
    cases parts with
    | nil => simp
    | cons next rest =>
      have hcons : [c].intercalate (part :: next :: rest) =
          part ++ c :: [c].intercalate (next :: rest) := by
        simp [List.intercalate]
      rw [hcons, List.splitOn_append_cons_self, ih (by simp), List.flatMap_cons,
        List.flatMap_cons, List.flatMap_cons]

/-- Two lists of parts are joined to one text exactly if cutting them gives the same pieces. -/
theorem intercalate_eq_iff (c : α) {parts' : List (List α)} (h : parts ≠ []) (h' : parts' ≠ []) :
    [c].intercalate parts = [c].intercalate parts' ↔
      parts.flatMap (List.splitOn c) = parts'.flatMap (List.splitOn c) := by
  rw [← splitOn_intercalate_eq c h, ← splitOn_intercalate_eq c h']
  constructor
  · intro heq
    rw [heq]
  · intro heq
    have hjoin := congrArg [c].intercalate heq
    rwa [List.intercalate_splitOn, List.intercalate_splitOn] at hjoin

end Join

/-- The texts between the colons of some parts, in order. -/
def colonPieces (parts : List String) : List (List Char) :=
  (parts.map String.toList).flatMap (List.splitOn ':')

def EntityKey.parts (key : EntityKey) : List String :=
  [key.normalizedName, key.label]

def GraphRelation.parts (r : GraphRelation) : List String :=
  [r.source.normalizedName, r.source.label, r.label, r.target.normalizedName, r.target.label]

variable (g : GraphNaming)

/-- The text that is hashed for the parts of an entity or a triple. -/
def hashedText (parts : List String) : String :=
  String.ofList ([':'].intercalate (g.kbId.toList :: parts.map String.toList))

theorem computeEntityId_eq (key : EntityKey) :
    g.computeEntityId key.normalizedName key.label = g.hashstr (hashedText g key.parts) := by
  refine congrArg g.hashstr (String.toList_injective ?_)
  simp [hashedText, EntityKey.parts, List.intercalate, toString, String.toList_append]

theorem computeTripleId_eq (r : GraphRelation) :
    g.computeTripleId r.source r.label r.target = g.hashstr (hashedText g r.parts) := by
  refine congrArg g.hashstr (String.toList_injective ?_)
  simp [hashedText, GraphRelation.parts, List.intercalate, toString, String.toList_append]

theorem hashedText_eq_iff (parts parts' : List String) :
    hashedText g parts = hashedText g parts' ↔ colonPieces parts = colonPieces parts' := by
  rw [hashedText, hashedText, String.ofList_inj, intercalate_eq_iff ':' (by simp) (by simp),
    List.flatMap_cons, List.flatMap_cons, List.append_cancel_left_eq]
  rfl

/-! ## Collecting entities -/

/-- The entities of a result in the order in which they are added. -/
def Extraction.occurrences (x : Extraction) : List ExtractedEntity :=
  x.entities ++ x.relations.flatMap fun r => [r.source, r.target]

variable (x : Extraction)

theorem buildGraphPayload_entities :
    (buildGraphPayload g x).entities = x.occurrences.foldl (addEntity g) [] := by
  have hrelations : ∀ (relations : List ExtractedRelation) (entities : List GraphEntity),
      relations.foldl (fun entities r => addEntity g (addEntity g entities r.source) r.target)
        entities =
      (relations.flatMap fun r => [r.source, r.target]).foldl (addEntity g) entities := by
    intro relations
    induction relations with
    | nil => intro entities; rfl
    | cons r relations ih =>
      intro entities
      rw [List.foldl_cons, ih, List.flatMap_cons, List.foldl_append]
      rfl
  rw [Extraction.occurrences, List.foldl_append, ← hrelations]
  rfl

theorem mem_mergeAttributes (existing attributes : List EntityAttribute) (a : EntityAttribute) :
    a ∈ mergeAttributes existing attributes ↔ a ∈ existing ∨ a ∈ attributes := by
  unfold mergeAttributes
  induction attributes generalizing existing with
  | nil => simp
  | cons b attributes ih =>
    rw [List.foldl_cons, ih, List.mem_cons]
    split_ifs with hb
    · constructor
      · rintro (h | h)
        · exact Or.inl h
        · exact Or.inr (Or.inr h)
      · rintro (h | rfl | h)
        · exact Or.inl h
        · exact Or.inl hb
        · exact Or.inr h
    · rw [List.mem_append, List.mem_singleton, or_assoc]

theorem nodup_mergeAttributes_iff (existing attributes : List EntityAttribute) :
    (mergeAttributes existing attributes).Nodup ↔ existing.Nodup := by
  unfold mergeAttributes
  induction attributes generalizing existing with
  | nil => rfl
  | cons b attributes ih =>
    rw [List.foldl_cons, ih]
    split_ifs with hb
    · rfl
    · rw [List.nodup_append]
      constructor
      · exact fun h => h.1
      · intro h
        refine ⟨h, List.nodup_singleton b, ?_⟩
        rintro a ha c hc rfl
        exact hb (List.mem_singleton.mp hc ▸ ha)

/-- The first of some entities with its key. -/
def IsFirst (occurrences : List ExtractedEntity) (o : ExtractedEntity) : Prop :=
  ∃ before after, occurrences = before ++ o :: after ∧ ∀ e ∈ before, e.key g ≠ o.key g

/-- What has been collected from some entities. -/
structure Collected (occurrences : List ExtractedEntity) (entities : List GraphEntity) : Prop where
  keys : (entities.map (GraphEntity.key g)).Nodup
  found : ∀ o ∈ occurrences, o.key g ∈ entities.map (GraphEntity.key g)
  union : ∀ e ∈ entities, ∀ a, a ∈ e.attributes ↔
    ∃ o ∈ occurrences, o.key g = e.key g ∧ a ∈ o.attributes
  first : ∀ e ∈ entities, ∃ o, IsFirst g occurrences o ∧ o.key g = e.key g ∧
    (e.attributes.Nodup ↔ o.attributes.Nodup)

variable {entities : List GraphEntity} {entity : ExtractedEntity}

theorem addEntity_of_mem (h : entity.key g ∈ entities.map (GraphEntity.key g)) :
    addEntity g entities entity = entities.map fun e =>
      if e.key g = entity.key g then
        { e with attributes := mergeAttributes e.attributes entity.attributes }
      else e := by
  rw [addEntity, if_pos h]

theorem keys_addEntity_of_mem (h : entity.key g ∈ entities.map (GraphEntity.key g)) :
    (addEntity g entities entity).map (GraphEntity.key g) = entities.map (GraphEntity.key g) := by
  rw [addEntity_of_mem g h, List.map_map]
  refine List.map_congr_left fun e _ => ?_
  simp only [Function.comp_apply]
  split_ifs <;> rfl

variable {occurrences : List ExtractedEntity}

theorem collected_addEntity (h : Collected g occurrences entities) (entity : ExtractedEntity) :
    Collected g (occurrences ++ [entity]) (addEntity g entities entity) := by
  have hfound : ∀ o ∈ occurrences ++ [entity],
      o.key g ∈ (addEntity g entities entity).map (GraphEntity.key g) := by
    intro o ho
    rw [mem_keys_addEntity]
    rcases List.mem_append.mp ho with ho | ho
    · exact Or.inl (h.found o ho)
    · exact Or.inr (by rw [List.mem_singleton.mp ho])
  have hfirst : ∀ o, IsFirst g occurrences o → IsFirst g (occurrences ++ [entity]) o := by
    rintro o ⟨before, after, heq, hbefore⟩
    exact ⟨before, after ++ [entity], by rw [heq]; simp, hbefore⟩
  by_cases hmem : entity.key g ∈ entities.map (GraphEntity.key g)
  · refine ⟨keys_addEntity_of_mem g hmem ▸ h.keys, hfound, ?_, ?_⟩
    · intro e' he' a
      rw [addEntity_of_mem g hmem] at he'
      obtain ⟨e, he, rfl⟩ := List.mem_map.mp he'
      have hunion := h.union e he a
      split_ifs with hkey
      · rw [key_with_attributes, mem_mergeAttributes, hunion]
        constructor
        · rintro (⟨o, ho, heq, ha⟩ | ha)
          · exact ⟨o, List.mem_append_left _ ho, heq, ha⟩
          · exact ⟨entity, by simp, hkey.symm, ha⟩
        · rintro ⟨o, ho, heq, ha⟩
          rcases List.mem_append.mp ho with ho | ho
          · exact Or.inl ⟨o, ho, heq, ha⟩
          · exact Or.inr (List.mem_singleton.mp ho ▸ ha)
      · rw [hunion]
        constructor
        · rintro ⟨o, ho, heq, ha⟩
          exact ⟨o, List.mem_append_left _ ho, heq, ha⟩
        · rintro ⟨o, ho, heq, ha⟩
          rcases List.mem_append.mp ho with ho | ho
          · exact ⟨o, ho, heq, ha⟩
          · rw [List.mem_singleton.mp ho] at heq
            exact absurd heq.symm hkey
    · intro e' he'
      rw [addEntity_of_mem g hmem] at he'
      obtain ⟨e, he, rfl⟩ := List.mem_map.mp he'
      obtain ⟨o, ho, heq, hnodup⟩ := h.first e he
      refine ⟨o, hfirst o ho, ?_, ?_⟩
      · split_ifs <;> exact heq
      · split_ifs
        · rw [nodup_mergeAttributes_iff]
          exact hnodup
        · exact hnodup
  · have hnew : addEntity g entities entity = entities ++
        [{ text := entity.text
           label := labelOr "Entity" entity.label
           attributes := entity.attributes }] := by
      rw [addEntity, if_neg hmem]
    have hnone : ∀ o ∈ occurrences, o.key g ≠ entity.key g := by
      intro o ho heq
      exact hmem (heq ▸ h.found o ho)
    refine ⟨?_, hfound, ?_, ?_⟩
    · rw [hnew, List.map_append, List.nodup_append]
      refine ⟨h.keys, List.nodup_singleton _, ?_⟩
      intro key hkey key' hkey' heq
      have hentity : key' = entity.key g := List.mem_singleton.mp hkey'
      exact hmem (hentity ▸ heq ▸ hkey)
    · intro e he a
      rw [hnew] at he
      rcases List.mem_append.mp he with he | he
      · rw [h.union e he a]
        constructor
        · rintro ⟨o, ho, heq, ha⟩
          exact ⟨o, List.mem_append_left _ ho, heq, ha⟩
        · rintro ⟨o, ho, heq, ha⟩
          rcases List.mem_append.mp ho with ho | ho
          · exact ⟨o, ho, heq, ha⟩
          · rw [List.mem_singleton.mp ho] at heq
            exact absurd (heq ▸ List.mem_map_of_mem he) hmem
      · rw [List.mem_singleton.mp he]
        constructor
        · intro ha
          exact ⟨entity, by simp, rfl, ha⟩
        · rintro ⟨o, ho, heq, ha⟩
          rcases List.mem_append.mp ho with ho | ho
          · exact absurd heq (hnone o ho)
          · exact List.mem_singleton.mp ho ▸ ha
    · intro e he
      rw [hnew] at he
      rcases List.mem_append.mp he with he | he
      · obtain ⟨o, ho, heq, hnodup⟩ := h.first e he
        exact ⟨o, hfirst o ho, heq, hnodup⟩
      · rw [List.mem_singleton.mp he]
        exact ⟨entity, ⟨occurrences, [], rfl, hnone⟩, rfl, Iff.rfl⟩

theorem collected_addEntities (occurrences : List ExtractedEntity) :
    Collected g occurrences (occurrences.foldl (addEntity g) []) := by
  induction occurrences using List.reverseRecOn with
  | nil => exact ⟨by simp, by simp, by simp, by simp⟩
  | append_singleton occurrences entity ih =>
    rw [List.foldl_append]
    exact collected_addEntity g ih entity

/-! ## Local identifiers -/

/-- `add_entity` with the identifier it returns.  Entities are only appended, so that
`e1`, `e2` and so on are the positions from one on. -/
def addEntityId (entities : List GraphEntity) (entity : ExtractedEntity) :
    List GraphEntity × Nat :=
  match entities.findIdx? fun e => e.key g = entity.key g with
  | some i => (addEntity g entities entity, i + 1)
  | none => (addEntity g entities entity, entities.length + 1)

/-- A relation with the local identifiers of its endpoints. -/
structure NumberedRelation where
  source : Nat
  target : Nat
  label : String
deriving DecidableEq

/-- `build_graph_payload` with local identifiers. -/
def numberPayload (x : Extraction) : List GraphEntity × List NumberedRelation :=
  x.relations.foldl
    (fun payload r =>
      let source := addEntityId g payload.1 r.source
      let target := addEntityId g source.1 r.target
      (target.1, payload.2 ++
        [{ source := source.2, target := target.2, label := labelOr "RELATED_TO" r.label }]))
    (x.entities.foldl (addEntity g) [], [])

/-- The entity with a local identifier has the key. -/
def RefersTo (entities : List GraphEntity) (n : Nat) (key : EntityKey) : Prop :=
  0 < n ∧ (entities.map (GraphEntity.key g))[n - 1]? = some key

theorem keys_prefix_addEntity (entities : List GraphEntity) (entity : ExtractedEntity) :
    entities.map (GraphEntity.key g) <+: (addEntity g entities entity).map (GraphEntity.key g) := by
  by_cases hmem : entity.key g ∈ entities.map (GraphEntity.key g)
  · exact keys_addEntity_of_mem g hmem ▸ List.prefix_rfl
  · rw [addEntity, if_neg hmem, List.map_append]
    exact List.prefix_append _ _

theorem RefersTo.mono {entities' : List GraphEntity} {n : Nat} {key : EntityKey}
    (h : RefersTo g entities n key)
    (hkeys : entities.map (GraphEntity.key g) <+: entities'.map (GraphEntity.key g)) :
    RefersTo g entities' n key := by
  obtain ⟨more, hmore⟩ := hkeys
  refine ⟨h.1, ?_⟩
  rw [← hmore, List.getElem?_append_left]
  · exact h.2
  · exact (List.getElem?_eq_some_iff.mp h.2).1

theorem addEntityId_spec (entities : List GraphEntity) (entity : ExtractedEntity) :
    (addEntityId g entities entity).1 = addEntity g entities entity ∧
      RefersTo g (addEntity g entities entity) (addEntityId g entities entity).2
        (entity.key g) := by
  unfold addEntityId
  cases hfind : entities.findIdx? fun e => e.key g = entity.key g with
  | some i =>
    obtain ⟨hlt, hkey, -⟩ := List.findIdx?_eq_some_iff_getElem.mp hfind
    have hkey' : (entities[i]).key g = entity.key g := by simpa using hkey
    have hrefers : RefersTo g entities (i + 1) (entity.key g) := by
      refine ⟨Nat.succ_pos i, ?_⟩
      rw [Nat.add_sub_cancel, List.getElem?_map, List.getElem?_eq_getElem hlt, Option.map_some,
        hkey']
    exact ⟨rfl, hrefers.mono g (keys_prefix_addEntity g entities entity)⟩
  | none =>
    have hnone := List.findIdx?_eq_none_iff.mp hfind
    have hnew : entity.key g ∉ entities.map (GraphEntity.key g) := by
      intro hmem
      obtain ⟨e, he, hkey⟩ := List.mem_map.mp hmem
      simpa [hkey] using hnone e he
    refine ⟨rfl, Nat.succ_pos _, ?_⟩
    rw [addEntity, if_neg hnew, List.map_append, Nat.add_sub_cancel,
      List.getElem?_append_right (by simp)]
    simp [GraphEntity.key, ExtractedEntity.key]

/-- The local identifiers of a relation are those of the entities with its keys. -/
def Numbers (entities : List GraphEntity) (n : NumberedRelation) (r : GraphRelation) : Prop :=
  RefersTo g entities n.source r.source ∧ RefersTo g entities n.target r.target ∧
    n.label = r.label

theorem numberPayload_spec :
    (numberPayload g x).1 = (buildGraphPayload g x).entities ∧
      List.Forall₂ (Numbers g (buildGraphPayload g x).entities) (numberPayload g x).2
        (buildGraphPayload g x).relations := by
  unfold numberPayload buildGraphPayload
  simp only
  generalize x.entities.foldl (addEntity g) [] = initial
  induction x.relations using List.reverseRecOn with
  | nil => exact ⟨rfl, List.Forall₂.nil⟩
  | append_singleton relations r ih =>
    simp only [List.foldl_append, List.foldl_cons, List.foldl_nil, List.map_append,
      List.map_cons, List.map_nil]
    obtain ⟨hentities, hrelations⟩ := ih
    rw [hentities]
    obtain ⟨hsource, hrefers⟩ := addEntityId_spec g
      (relations.foldl (fun entities r => addEntity g (addEntity g entities r.source) r.target)
        initial) r.source
    rw [hsource]
    obtain ⟨htarget, hrefers'⟩ := addEntityId_spec g (addEntity g
      (relations.foldl (fun entities r => addEntity g (addEntity g entities r.source) r.target)
        initial) r.source) r.target
    rw [htarget]
    refine ⟨rfl, List.rel_append ?_ ?_⟩
    · refine hrelations.imp fun n r' hn => ?_
      have hkeys := (keys_prefix_addEntity g _ r.source).trans
        (keys_prefix_addEntity g (addEntity g (relations.foldl
          (fun entities r => addEntity g (addEntity g entities r.source) r.target) initial)
            r.source) r.target)
      exact ⟨hn.1.mono g hkeys, hn.2.1.mono g hkeys, hn.2.2⟩
    · refine List.Forall₂.cons ⟨?_, hrefers', rfl⟩ List.Forall₂.nil
      exact hrefers.mono g (keys_prefix_addEntity g _ r.target)

/-! ## Separation -/

/-- The keys of the entities of some results. -/
def payloadKeys (xs : List Extraction) : List EntityKey :=
  xs.flatMap fun x => (buildGraphPayload g x).entities.map (GraphEntity.key g)

/-- The relations of some results. -/
def payloadRelations (xs : List Extraction) : List GraphRelation :=
  xs.flatMap fun x => (buildGraphPayload g x).relations

/-- The texts that are hashed for some results. -/
def hashedTexts (xs : List Extraction) : List String :=
  (payloadKeys g xs).map (fun key => hashedText g key.parts) ++
    (payloadRelations g xs).map fun r => hashedText g r.parts

/-- The payload and the records of a result, when the identifiers separate what the graph does. -/
structure Separates (xs : List Extraction) : Prop where
  merged : ∀ x ∈ xs, ((buildGraphPayload g x).entities.map (GraphEntity.key g)).Nodup ∧
    ∀ key, key ∈ (buildGraphPayload g x).entities.map (GraphEntity.key g) ↔
      ∃ o ∈ x.occurrences, o.key g = key
  union : ∀ x ∈ xs, ∀ e ∈ (buildGraphPayload g x).entities, e.attributes.Nodup ∧
    ∀ a, a ∈ e.attributes ↔ ∃ o ∈ x.occurrences, o.key g = e.key g ∧ a ∈ o.attributes
  referring : ∀ x ∈ xs, (numberPayload g x).1 = (buildGraphPayload g x).entities ∧
    List.Forall₂ (Numbers g (buildGraphPayload g x).entities) (numberPayload g x).2
      (buildGraphPayload g x).relations
  entityIds : ∀ k ∈ payloadKeys g xs, ∀ k' ∈ payloadKeys g xs,
    g.computeEntityId k.normalizedName k.label = g.computeEntityId k'.normalizedName k'.label →
      k = k'
  tripleIds : ∀ r ∈ payloadRelations g xs, ∀ r' ∈ payloadRelations g xs,
    g.computeTripleId r.source r.label r.target = g.computeTripleId r'.source r'.label r'.target →
      r = r'
  records : ∀ x ∈ xs,
    ((buildEntityRecords g (buildGraphPayload g x).entities).map EntityRecord.entityId).Nodup ∧
      ((buildTripleRecords g (buildGraphPayload g x).relations).map TripleRecord.tripleId).Nodup

/-- The first entity with a key repeats no attribute, and no two entities or relations differ only
in how the texts between the colons are distributed over their parts. -/
structure Separable (xs : List Extraction) : Prop where
  attributes : ∀ x ∈ xs, ∀ o, IsFirst g x.occurrences o → o.attributes.Nodup
  entities : ∀ k ∈ payloadKeys g xs, ∀ k' ∈ payloadKeys g xs,
    colonPieces k.parts = colonPieces k'.parts → k = k'
  relations : ∀ r ∈ payloadRelations g xs, ∀ r' ∈ payloadRelations g xs,
    colonPieces r.parts = colonPieces r'.parts → r = r'

theorem nodup_tripleIds (relations : List GraphRelation) :
    ((buildTripleRecords g relations).map TripleRecord.tripleId).Nodup := by
  unfold buildTripleRecords
  induction relations using List.reverseRecOn with
  | nil => simp
  | append_singleton relations r ih =>
    rw [List.foldl_append, List.foldl_cons, List.foldl_nil]
    split_ifs with hmem
    · exact ih
    · rw [List.map_append, List.nodup_append]
      refine ⟨ih, List.nodup_singleton _, ?_⟩
      intro id hid id' hid' heq
      have hnew : id' = (tripleRecord g r).tripleId := List.mem_singleton.mp hid'
      exact hmem (hnew ▸ heq ▸ hid)

/-- Every entity of a payload has been extracted. -/
theorem mem_keys_buildGraphPayload_iff (key : EntityKey) :
    key ∈ (buildGraphPayload g x).entities.map (GraphEntity.key g) ↔
      ∃ o ∈ x.occurrences, o.key g = key := by
  have hcollected := collected_addEntities g x.occurrences
  rw [buildGraphPayload_entities]
  constructor
  · intro hkey
    obtain ⟨e, he, rfl⟩ := List.mem_map.mp hkey
    obtain ⟨o, ⟨before, after, heq, -⟩, hkey, -⟩ := hcollected.first e he
    exact ⟨o, by simp [heq], hkey⟩
  · rintro ⟨o, ho, rfl⟩
    exact hcollected.found o ho

theorem IsFirst.unique {o o' : ExtractedEntity}
    (h : IsFirst g occurrences o) (h' : IsFirst g occurrences o') (hkey : o.key g = o'.key g) :
    o = o' := by
  obtain ⟨before, after, heq, hbefore⟩ := h
  obtain ⟨before', after', heq', hbefore'⟩ := h'
  rw [heq] at heq'
  rcases List.append_eq_append_iff.mp heq' with ⟨mid, hmid, hrest⟩ | ⟨mid, hmid, hrest⟩
  · cases mid with
    | nil => exact (List.cons.inj hrest).1
    | cons e mid =>
      obtain ⟨rfl, -⟩ := List.cons.inj hrest
      exact absurd hkey (hbefore' o (by rw [hmid]; simp))
  · cases mid with
    | nil => exact (List.cons.inj hrest).1.symm
    | cons e mid =>
      obtain ⟨rfl, -⟩ := List.cons.inj hrest
      exact absurd hkey.symm (hbefore o' (by rw [hmid]; simp))

theorem attributes_nodup_iff :
    (∀ e ∈ (buildGraphPayload g x).entities, e.attributes.Nodup) ↔
      ∀ o, IsFirst g x.occurrences o → o.attributes.Nodup := by
  have hcollected := collected_addEntities g x.occurrences
  rw [buildGraphPayload_entities]
  constructor
  · intro h o ho
    obtain ⟨before, after, heq, hbefore⟩ := ho
    obtain ⟨e, he, hkey⟩ := List.mem_map.mp (hcollected.found o (by simp [heq]))
    obtain ⟨o', ho', hkey', hnodup⟩ := hcollected.first e he
    have hsame := ho'.unique g ⟨before, after, heq, hbefore⟩ (hkey'.trans hkey)
    exact hsame ▸ hnodup.mp (h e he)
  · intro h e he
    obtain ⟨o, ho, -, hnodup⟩ := hcollected.first e he
    exact hnodup.mpr (h o ho)

/-- The identifiers separate what the graph separates exactly if no colons get in the way. -/
theorem identifiers_separate_iff (xs : List Extraction)
    (hinj : ∀ s ∈ hashedTexts g xs, ∀ t ∈ hashedTexts g xs, g.hashstr s = g.hashstr t → s = t) :
    Separates g xs ↔ Separable g xs := by
  have hentities : ∀ k ∈ payloadKeys g xs, ∀ k' ∈ payloadKeys g xs,
      (g.computeEntityId k.normalizedName k.label =
        g.computeEntityId k'.normalizedName k'.label ↔
          colonPieces k.parts = colonPieces k'.parts) := by
    intro k hk k' hk'
    rw [computeEntityId_eq, computeEntityId_eq, ← hashedText_eq_iff g]
    refine ⟨hinj _ ?_ _ ?_, congrArg _⟩
    · exact List.mem_append_left _ (List.mem_map.mpr ⟨k, hk, rfl⟩)
    · exact List.mem_append_left _ (List.mem_map.mpr ⟨k', hk', rfl⟩)
  have hrelations : ∀ r ∈ payloadRelations g xs, ∀ r' ∈ payloadRelations g xs,
      (g.computeTripleId r.source r.label r.target =
        g.computeTripleId r'.source r'.label r'.target ↔
          colonPieces r.parts = colonPieces r'.parts) := by
    intro r hr r' hr'
    rw [computeTripleId_eq, computeTripleId_eq, ← hashedText_eq_iff g]
    refine ⟨hinj _ ?_ _ ?_, congrArg _⟩
    · exact List.mem_append_right _ (List.mem_map.mpr ⟨r, hr, rfl⟩)
    · exact List.mem_append_right _ (List.mem_map.mpr ⟨r', hr', rfl⟩)
  constructor
  · intro h
    constructor
    · intro x hx
      exact (attributes_nodup_iff g x).mp fun e he => (h.union x hx e he).1
    · intro k hk k' hk' hpieces
      exact h.entityIds k hk k' hk' ((hentities k hk k' hk').mpr hpieces)
    · intro r hr r' hr' hpieces
      exact h.tripleIds r hr r' hr' ((hrelations r hr r' hr').mpr hpieces)
  · intro h
    have hids : ∀ k ∈ payloadKeys g xs, ∀ k' ∈ payloadKeys g xs,
        g.computeEntityId k.normalizedName k.label =
          g.computeEntityId k'.normalizedName k'.label → k = k' := by
      intro k hk k' hk' hid
      exact h.entities k hk k' hk' ((hentities k hk k' hk').mp hid)
    have hkeys : ∀ x, ((buildGraphPayload g x).entities.map (GraphEntity.key g)).Nodup := by
      intro x
      rw [buildGraphPayload_entities]
      exact (collected_addEntities g x.occurrences).keys
    constructor
    · intro x _
      exact ⟨hkeys x, mem_keys_buildGraphPayload_iff g x⟩
    · intro x hx e he
      refine ⟨(attributes_nodup_iff g x).mpr (h.attributes x hx) e he, ?_⟩
      rw [buildGraphPayload_entities] at he
      exact (collected_addEntities g x.occurrences).union e he
    · intro x _
      exact numberPayload_spec g x
    · exact hids
    · intro r hr r' hr' hid
      exact h.relations r hr r' hr' ((hrelations r hr r' hr').mp hid)
    · intro x hx
      refine ⟨?_, nodup_tripleIds g _⟩
      have hmap : (buildEntityRecords g (buildGraphPayload g x).entities).map
          EntityRecord.entityId =
          ((buildGraphPayload g x).entities.map (GraphEntity.key g)).map
            fun k => g.computeEntityId k.normalizedName k.label := by
        simp [buildEntityRecords, Function.comp_def]
      rw [hmap]
      refine (hkeys x).map_on fun k hk k' hk' hid => ?_
      exact hids k (List.mem_flatMap.mpr ⟨x, hx, hk⟩) k' (List.mem_flatMap.mpr ⟨x, hx, hk'⟩) hid

/-- Two people of whom one knows the other. -/
def acquaintance : Extraction where
  entities := [sampleEntity "ada", sampleEntity "bob"]
  relations := [{ source := sampleEntity "ada", target := sampleEntity "bob", label := "KNOWS" }]

theorem acquaintance_separates : Separates sampleNaming [acquaintance] := by
  have hinj : ∀ s ∈ hashedTexts sampleNaming [acquaintance],
      ∀ t ∈ hashedTexts sampleNaming [acquaintance],
        sampleNaming.hashstr s = sampleNaming.hashstr t → s = t := by
    decide +kernel
  refine (identifiers_separate_iff sampleNaming [acquaintance] hinj).mpr ⟨?_, ?_, ?_⟩
  · rintro x hx o ⟨before, after, heq, -⟩
    obtain rfl := List.mem_singleton.mp hx
    have hmem : o ∈ acquaintance.occurrences := by
      rw [heq]
      exact List.mem_append_right _ (List.mem_cons_self ..)
    have hall : ∀ o ∈ acquaintance.occurrences, o.attributes.Nodup := by
      decide
    exact hall o hmem
  · decide +kernel
  · decide +kernel

/-- A knowledge base in which a name and a label make up one text. -/
def colonNaming : GraphNaming where
  kbId := "kb_1"
  lower := id
  hexdigest text := ([("kb_1:a:b:c".toList,
    "e93db4ea9baf19855bbd03e5e545305664e8b8f64a868794bf9112e160068f3a".toList)].lookup text).getD []

def colonEntities : Extraction where
  entities :=
    [{ text := "a:b", label := "c", attributes := [] },
      { text := "a", label := "b:c", attributes := [] }]
  relations := []

/-- The entities of a name with a colon and of a label with one get the same identifier. -/
theorem colon_entities_collide :
    ¬ ∀ (g : GraphNaming) (xs : List Extraction), (∀ s ∈ hashedTexts g xs,
      ∀ t ∈ hashedTexts g xs, g.hashstr s = g.hashstr t → s = t) → Separates g xs := by
  intro hall
  have hseparates := hall colonNaming [colonEntities] (by decide +kernel)
  have hnodup := (hseparates.records colonEntities (by simp)).1
  exact absurd hnodup (by decide +kernel)

end Yuanlei.KnowledgeGraph
