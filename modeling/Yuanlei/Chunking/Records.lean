import Yuanlei.Lib.PosixPath
import Yuanlei.Lib.PyFind
import Yuanlei.Lib.PyInt

/-!
# Records of chunks

`_build_chunk_records` of `dispatcher.py`: every chunk that is not blank gets a record with
its positions in the source.  The search for a chunk starts where the last chunk that was
found ends.

Main results:

- `truePositions_iff_apart`: the positions are the true ones exactly when every chunk
  starts behind the chunk before it and does not occur between the two.
- `overlapping_chunk_not_found`: a chunk that overlaps the one before it has no
  positions.
-/

namespace Yuanlei.Chunking

open PosixPath (Text)
open PyText (stripChars OccursAt find)

/-! ## Records -/

structure ChunkRecord where
  id : Text
  content : Text
  fileId : Text
  filename : Text
  chunkIndex : Nat
  source : Text
  chunkId : Text
  startCharPos : Option Nat
  endCharPos : Option Nat
  startTokenPos : Option Nat
  endTokenPos : Option Nat
  extractionResult : Option Text
  deriving DecidableEq

/-- The id of the chunk with an index. -/
def chunkId (fileId : Text) (index : Nat) : Text :=
  fileId ++ "_chunk_".toList ++ Nat.toDigits 10 index

/-- The position of a chunk from the end of the last one that was found. -/
def locate (sourceText : Option Text) (text : Text) (searchFrom : Nat) : Option Nat :=
  match sourceText with
  | none => none
  | some [] => none
  | some source => find text source searchFrom

section Build

variable (fileId filename : Text) (sourceText : Option Text)

/-- The record of a chunk. -/
def chunkRecord (index : Nat) (text : Text) (foundAt : Option Nat) : ChunkRecord where
  id := chunkId fileId index
  content := text
  fileId := fileId
  filename := filename
  chunkIndex := index
  source := filename
  chunkId := chunkId fileId index
  startCharPos := foundAt
  endCharPos := foundAt.map (· + text.length)
  startTokenPos := none
  endTokenPos := none
  extractionResult := none

/-- The records of the chunks from an index on. -/
def recordsFrom : Nat → Nat → List Text → List ChunkRecord
  | _, _, [] => []
  | index, searchFrom, chunk :: chunks =>
    let text := stripChars chunk
    if text = [] then recordsFrom (index + 1) searchFrom chunks
    else
      let foundAt := locate sourceText text searchFrom
      let next := (foundAt.map (· + text.length)).getD searchFrom
      chunkRecord fileId filename index text foundAt :: recordsFrom (index + 1) next chunks

def buildChunkRecords (chunks : List Text) : List ChunkRecord :=
  recordsFrom fileId filename sourceText 0 0 chunks

end Build

/-! ## Ids -/

theorem chunkId_injective (fileId : Text) : Function.Injective (chunkId fileId) := by
  intro m n heq
  have hdigits : Nat.toDigits 10 m = Nat.toDigits 10 n := List.append_cancel_left heq
  have hm := DecimalDigits.ascii.parseInt_toDigits m
  rw [hdigits, DecimalDigits.ascii.parseInt_toDigits n, Option.some.injEq] at hm
  omega

section Ids

variable {fileId filename : Text} {sourceText : Option Text}

theorem mem_recordsFrom {index searchFrom : Nat} {chunks : List Text} {record : ChunkRecord}
    (h : record ∈ recordsFrom fileId filename sourceText index searchFrom chunks) :
    index ≤ record.chunkIndex ∧ record.id = chunkId fileId record.chunkIndex ∧
      record.chunkId = record.id ∧
      ∃ chunk, chunks[record.chunkIndex - index]? = some chunk ∧
        record.content = stripChars chunk ∧ stripChars chunk ≠ [] := by
  induction chunks generalizing index searchFrom with
  | nil => cases h
  | cons chunk chunks ih =>
    have hrest : ∀ next, record ∈ recordsFrom fileId filename sourceText (index + 1) next chunks →
        index ≤ record.chunkIndex ∧ record.id = chunkId fileId record.chunkIndex ∧
          record.chunkId = record.id ∧
          ∃ c, (chunk :: chunks)[record.chunkIndex - index]? = some c ∧
            record.content = stripChars c ∧ stripChars c ≠ [] := by
      intro next hmem
      obtain ⟨hle, hid, hsame, c, hget, hcontent, hsome⟩ := ih hmem
      refine ⟨by omega, hid, hsame, c, ?_, hcontent, hsome⟩
      have hsucc : record.chunkIndex - index = record.chunkIndex - (index + 1) + 1 := by
        omega
      rw [hsucc, List.getElem?_cons_succ]
      exact hget
    unfold recordsFrom at h
    simp only at h
    split at h
    · exact hrest _ h
    · rename_i hsome
      rcases List.mem_cons.mp h with heq | hmem
      · rw [heq]
        exact ⟨Nat.le_refl _, rfl, rfl, chunk, by simp [chunkRecord], rfl, hsome⟩
      · exact hrest _ hmem

theorem recordsFrom_ids_nodup (index searchFrom : Nat) (chunks : List Text) :
    ((recordsFrom fileId filename sourceText index searchFrom chunks).map (·.id)).Nodup := by
  induction chunks generalizing index searchFrom with
  | nil => exact List.nodup_nil
  | cons chunk chunks ih =>
    unfold recordsFrom
    simp only
    split
    · exact ih _ _
    · rw [List.map_cons, List.nodup_cons]
      refine ⟨?_, ih _ _⟩
      intro hmem
      obtain ⟨record, hrecord, heq⟩ := List.mem_map.mp hmem
      obtain ⟨hle, hid, -⟩ := mem_recordsFrom hrecord
      have hindex : record.chunkIndex = index := chunkId_injective fileId (hid.symm.trans heq)
      omega

end Ids

theorem records_ids_nodup (fileId filename : Text) (sourceText : Option Text) (chunks : List Text) :
    ((buildChunkRecords fileId filename sourceText chunks).map (·.id)).Nodup :=
  recordsFrom_ids_nodup 0 0 chunks

/-! ## Positions -/

/-- A chunk with the offset that it was taken from, if it occurs in the source. -/
abbrev TakenChunk := Text × Option Nat

/-- The offsets are offsets of the trimmed chunks, and the other chunks do not occur. -/
def Taken (source : Text) (chunks : List TakenChunk) : Prop :=
  ∀ chunk ∈ chunks, stripChars chunk.1 ≠ [] →
    match chunk.2 with
    | some offset => OccursAt (stripChars chunk.1) source offset
    | none => ∀ i, ¬ OccursAt (stripChars chunk.1) source i

/-- The record of a chunk has its true positions. -/
def HasTruePositions (chunk : TakenChunk) (record : ChunkRecord) : Prop :=
  record.content = stripChars chunk.1 ∧ record.startCharPos = chunk.2 ∧
    record.endCharPos = chunk.2.map (· + (stripChars chunk.1).length)

instance (chunk : TakenChunk) (record : ChunkRecord) : Decidable (HasTruePositions chunk record) :=
  inferInstanceAs (Decidable (_ ∧ _ ∧ _))

section Positions

variable (fileId filename source : Text)

/-- The chunks that are not blank have records with their true positions. -/
def RecordsTrue (index searchFrom : Nat) (chunks : List TakenChunk) : Prop :=
  ∀ i chunk, chunks[i]? = some chunk → stripChars chunk.1 ≠ [] →
    ∃ record ∈ recordsFrom fileId filename (some source) index searchFrom (chunks.map Prod.fst),
      record.chunkIndex = index + i ∧ HasTruePositions chunk record

/-- The records of a source have distinct ids and the true positions. -/
def TruePositions (chunks : List TakenChunk) : Prop :=
  ((buildChunkRecords fileId filename (some source) (chunks.map Prod.fst)).map (·.id)).Nodup ∧
    RecordsTrue fileId filename source 0 0 chunks

/-- Every chunk starts behind the chunk before it and does not occur between the two; the
search starts at the end of the chunk before. -/
def Apart : Nat → List TakenChunk → Prop
  | _, [] => True
  | searchFrom, (chunk, origin) :: chunks =>
    if stripChars chunk = [] then Apart searchFrom chunks
    else
      match origin with
      | none => Apart searchFrom chunks
      | some offset =>
        searchFrom ≤ offset ∧
          (∀ j, searchFrom ≤ j → j < offset → ¬ OccursAt (stripChars chunk) source j) ∧
          Apart (offset + (stripChars chunk).length) chunks

variable {fileId filename source}

theorem apart_cons (searchFrom : Nat) (chunk : Text) (origin : Option Nat)
    (chunks : List TakenChunk) :
    Apart source searchFrom ((chunk, origin) :: chunks) =
      if stripChars chunk = [] then Apart source searchFrom chunks
      else
        match origin with
        | none => Apart source searchFrom chunks
        | some offset =>
          searchFrom ≤ offset ∧
            (∀ j, searchFrom ≤ j → j < offset → ¬ OccursAt (stripChars chunk) source j) ∧
            Apart source (offset + (stripChars chunk).length) chunks :=
  rfl

theorem locate_some {text : Text} (h : text ≠ []) (searchFrom : Nat) :
    locate (some source) text searchFrom = find text source searchFrom := by
  cases source with
  | nil =>
    symm
    show find text [] searchFrom = none
    rw [PyText.find_eq_none_iff h]
    intro j _ hoccurs
    rw [OccursAt, List.drop_nil, List.prefix_nil] at hoccurs
    exact h hoccurs
  | cons c source => rfl

variable {index searchFrom : Nat} {chunk : TakenChunk} {chunks : List TakenChunk}

theorem recordsTrue_blank (h : stripChars chunk.1 = []) :
    RecordsTrue fileId filename source index searchFrom (chunk :: chunks) ↔
      RecordsTrue fileId filename source (index + 1) searchFrom chunks := by
  unfold RecordsTrue
  rw [List.map_cons, recordsFrom]
  simp only [h, if_true]
  constructor
  · intro htrue i c hget hsome
    obtain ⟨record, hmem, hindex, hpositions⟩ := htrue (i + 1) c hget hsome
    exact ⟨record, hmem, by omega, hpositions⟩
  · intro htrue i c hget hsome
    cases i with
    | zero =>
      rw [List.getElem?_cons_zero, Option.some.injEq] at hget
      rw [← hget] at hsome
      exact absurd h hsome
    | succ i =>
      obtain ⟨record, hmem, hindex, hpositions⟩ := htrue i c hget hsome
      exact ⟨record, hmem, by omega, hpositions⟩

/-- A chunk that is not blank has its true positions when the search finds its offset, and the
search for the next chunk starts at its end. -/
theorem recordsTrue_cons (h : stripChars chunk.1 ≠ []) :
    RecordsTrue fileId filename source index searchFrom (chunk :: chunks) ↔
      find (stripChars chunk.1) source searchFrom = chunk.2 ∧
        RecordsTrue fileId filename source (index + 1)
          ((chunk.2.map (· + (stripChars chunk.1).length)).getD searchFrom) chunks := by
  unfold RecordsTrue
  rw [List.map_cons, recordsFrom]
  simp only [h, if_false, locate_some h]
  constructor
  · intro htrue
    have hfound : find (stripChars chunk.1) source searchFrom = chunk.2 := by
      obtain ⟨record, hmem, hindex, hpositions⟩ := htrue 0 chunk rfl h
      rcases List.mem_cons.mp hmem with heq | hrest
      · rw [heq] at hpositions
        exact hpositions.2.1
      · have hle := (mem_recordsFrom hrest).1
        omega
    refine ⟨hfound, ?_⟩
    intro i c hget hsome
    obtain ⟨record, hmem, hindex, hpositions⟩ := htrue (i + 1) c hget hsome
    rcases List.mem_cons.mp hmem with heq | hrest
    · rw [heq] at hindex
      simp only [chunkRecord] at hindex
      omega
    · rw [hfound] at hrest
      exact ⟨record, hrest, by omega, hpositions⟩
  · rintro ⟨hfound, htrue⟩ i c hget hsome
    cases i with
    | zero =>
      rw [List.getElem?_cons_zero, Option.some.injEq] at hget
      refine ⟨_, List.mem_cons_self, rfl, ?_⟩
      rw [← hget, hfound]
      exact ⟨rfl, rfl, rfl⟩
    | succ i =>
      obtain ⟨record, hmem, hindex, hpositions⟩ := htrue i c hget hsome
      rw [hfound]
      exact ⟨record, List.mem_cons_of_mem _ hmem, by omega, hpositions⟩

theorem recordsTrue_iff_apart (htaken : Taken source chunks) (index searchFrom : Nat) :
    RecordsTrue fileId filename source index searchFrom chunks ↔
      Apart source searchFrom chunks := by
  induction chunks generalizing index searchFrom with
  | nil => simp [RecordsTrue, Apart]
  | cons chunk chunks ih =>
    obtain ⟨text, origin⟩ := chunk
    have hchunks : Taken source chunks := fun c hmem => htaken c (List.mem_cons_of_mem _ hmem)
    by_cases hblank : stripChars text = []
    · rw [recordsTrue_blank hblank, ih hchunks, apart_cons, if_pos hblank]
    · have hchunk := htaken (text, origin) List.mem_cons_self hblank
      rw [recordsTrue_cons hblank, ih hchunks, apart_cons, if_neg hblank]
      cases origin with
      | none =>
        have hnone : find (stripChars text) source searchFrom = none :=
          (PyText.find_eq_none_iff hblank).mpr fun j _ => hchunk j
        simp [hnone]
      | some offset =>
        have hoccurs : OccursAt (stripChars text) source offset := hchunk
        simp only [PyText.find_eq_some_iff hblank, Option.map_some, Option.getD_some, hoccurs,
          true_and, and_assoc]

end Positions

/-- The positions are the true ones exactly when every chunk starts behind the chunk before it
and does not occur between the two. -/
theorem truePositions_iff_apart (fileId filename : Text) {source : Text}
    {chunks : List TakenChunk} (htaken : Taken source chunks) :
    TruePositions fileId filename source chunks ↔ Apart source 0 chunks := by
  unfold TruePositions
  rw [recordsTrue_iff_apart htaken]
  constructor
  · exact fun h => h.2
  · exact fun h => ⟨records_ids_nodup fileId filename (some source) _, h⟩

/-- Two chunks of a source, a chunk that does not occur in it, and a blank one. -/
def apartChunks : List TakenChunk :=
  [(" ab ".toList, some 0), ("x".toList, none), ("  ".toList, none), ("c".toList, some 3)]

theorem apartChunks_truePositions :
    TruePositions "f".toList "f.md".toList "ab c".toList apartChunks ↔
      Apart "ab c".toList 0 apartChunks := by
  refine truePositions_iff_apart _ _ ?_
  intro chunk hmem
  simp only [apartChunks, List.mem_cons, List.not_mem_nil, or_false] at hmem
  rcases hmem with heq | heq | heq | heq
  · rw [heq]
    exact fun _ => by decide
  · rw [heq]
    intro _ i hoccurs
    have hle : i + (stripChars "x".toList).length ≤ "ab c".toList.length :=
      hoccurs.le_length (by decide)
    have hall : ∀ j < 4, ¬ OccursAt (stripChars "x".toList) "ab c".toList j := by
      decide
    have hlength : (stripChars "x".toList).length = 1 ∧ "ab c".toList.length = 4 := by
      decide
    exact hall i (by omega) hoccurs
  · rw [heq]
    exact fun h => absurd (by decide) h
  · rw [heq]
    exact fun _ => by decide

/-- A chunk that starts before the end of the chunk before it gets no positions. -/
theorem overlapping_chunk_not_found :
    Taken "abc".toList [("ab".toList, some 0), ("bc".toList, some 1)] ∧
      ¬ TruePositions "f".toList "f.md".toList "abc".toList
        [("ab".toList, some 0), ("bc".toList, some 1)] := by
  have htaken : Taken "abc".toList [("ab".toList, some 0), ("bc".toList, some 1)] := by
    intro chunk hmem
    simp only [List.mem_cons, List.not_mem_nil, or_false] at hmem
    rcases hmem with heq | heq
    · rw [heq]
      exact fun _ => by decide
    · rw [heq]
      exact fun _ => by decide
  refine ⟨htaken, ?_⟩
  intro htrue
  have hapart : Apart "abc".toList 0 [("ab".toList, some 0), ("bc".toList, some 1)] :=
    (recordsTrue_iff_apart htaken 0 0).mp htrue.2
  exact absurd hapart.2.2.1 (by decide)

end Yuanlei.Chunking
