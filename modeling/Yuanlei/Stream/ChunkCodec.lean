import Yuanlei.Lib.JsonLines

/-!
# Chunks of the execution stream

The execution stream yields bytes: `make_chunk` writes one JSON object with a trailing
newline.  The worker takes the bytes apart again in `_iter_json_chunks`: it cuts the text
with `str.splitlines`, skips blank lines and drops, with a warning, every line that is no
JSON text.  The two agree on what ends a line only for text without the separators
U+0085, U+2028 and U+2029, which the writer leaves as they are.

Main results:

- `decodeStream_encode_iff`: the worker decodes what the stream encodes exactly if
  no key and no string in the objects has a separator.
- `separator_drops_chunk`: a response with a separator is dropped.
-/

universe u

open Json (FloatText Unbroken loads dump)
open PyText (isLineBreak stripChars splitLines splitLinesFrom)

namespace Yuanlei

variable {F : Type u}

/-! ## Encoding -/

/-- The JSON text of an object with the trailing newline. -/
def chunkText (text : FloatText F) (object : Json.Dict F) : List Char :=
  dump text object.toJson ++ ['\n']

/-- `json.dumps(..., ensure_ascii=False).encode("utf-8") + b"\n"`. -/
def encodeChunk (text : FloatText F) (object : Json.Dict F) : ByteArray :=
  (String.ofList (chunkText text object)).toUTF8

/-- The first of the thread ids that is set and not empty. -/
def chunkThreadId (kwarg fromMeta : Option String) (threadId : String) : String :=
  ((kwarg.filter (· ≠ "")).orElse fun _ => fromMeta.filter (· ≠ "")).getD threadId

/-- The object of `make_chunk` and `make_resume_chunk`; `thread_id` is taken out of the
keyword arguments. -/
def chunkObject (requestId : Json.Value F) (metaThreadId : Option String) (threadId : String)
    (content : Json.Value F) (threadIdKwarg : Option String) (kwargs : Json.Dict F) :
    Json.Dict F :=
  .ofPairs [("request_id", requestId), ("response", content),
      ("thread_id", ⟨.str (chunkThreadId threadIdKwarg metaThreadId threadId), trivial⟩)]
    kwargs

def makeChunk (text : FloatText F) (requestId : Json.Value F) (metaThreadId : Option String)
    (threadId : String) (content : Json.Value F) (threadIdKwarg : Option String)
    (kwargs : Json.Dict F) : ByteArray :=
  encodeChunk text (chunkObject requestId metaThreadId threadId content threadIdKwarg kwargs)

/-- The encodings of several objects in one byte chunk. -/
def encodeGroup (text : FloatText F) : List (Json.Dict F) → ByteArray
  | [] => ByteArray.empty
  | object :: objects => encodeChunk text object ++ encodeGroup text objects

/-! ## Decoding -/

/-- The values on the lines of a text; a line that is no JSON text is dropped. -/
def decodeText (text : FloatText F) (t : List Char) : List (Json F) :=
  (splitLines t).filterMap fun line =>
    let line := stripChars line
    if line = [] then none else loads text line

/-- `_iter_json_chunks`: bytes that are no UTF-8 are an error. -/
def iterJsonChunks (text : FloatText F) (chunkBytes : ByteArray) : Option (List (Json F)) :=
  (String.fromUTF8? chunkBytes).map fun t => decodeText text t.toList

/-- The chunks that the worker sees, in order. -/
def decodeStream (text : FloatText F) : List ByteArray → Option (List (Json F))
  | [] => some []
  | chunkBytes :: rest =>
    match iterJsonChunks text chunkBytes, decodeStream text rest with
    | some chunks, some more => some (chunks ++ more)
    | _, _ => none

/-! ## Byte chunks -/

/-- The text of the objects in one byte chunk. -/
def groupText (text : FloatText F) (objects : List (Json.Dict F)) : List Char :=
  objects.flatMap (chunkText text)

variable (text : FloatText F)

theorem groupText_cons (object : Json.Dict F) (objects : List (Json.Dict F)) :
    groupText text (object :: objects) = chunkText text object ++ groupText text objects :=
  List.flatMap_cons

theorem encodeGroup_eq (objects : List (Json.Dict F)) :
    encodeGroup text objects = (String.ofList (groupText text objects)).toUTF8 := by
  induction objects with
  | nil => rfl
  | cons object objects ih =>
    rw [encodeGroup, ih, groupText_cons, encodeChunk, String.ofList_append]
    simp

theorem fromUTF8?_toUTF8 (s : String) : String.fromUTF8? s.toUTF8 = some s := by
  have hvalid : s.toUTF8.IsValidUTF8 := s.isValidUTF8
  rw [String.fromUTF8?, dif_pos hvalid]
  rfl

theorem iterJsonChunks_encodeGroup (objects : List (Json.Dict F)) :
    iterJsonChunks text (encodeGroup text objects) =
      some (decodeText text (groupText text objects)) := by
  rw [encodeGroup_eq, iterJsonChunks, fromUTF8?_toUTF8, Option.map_some, String.toList_ofList]

theorem decodeText_groupText (objects : List (Json.Dict F)) :
    decodeText text (groupText text objects) =
      objects.flatMap fun object => decodeText text (chunkText text object) := by
  induction objects with
  | nil => rfl
  | cons object objects ih =>
    rw [List.flatMap_cons, ← ih, groupText_cons]
    unfold decodeText splitLines chunkText
    rw [List.append_assoc, List.singleton_append, PyText.splitLinesFrom_append,
      List.filterMap_append]

theorem decodeStream_encode (groups : List (List (Json.Dict F))) :
    decodeStream text (groups.map (encodeGroup text)) =
      some (groups.flatten.flatMap fun object => decodeText text (chunkText text object)) := by
  induction groups with
  | nil => rfl
  | cons objects groups ih =>
    rw [List.map_cons, decodeStream, iterJsonChunks_encodeGroup, ih, decodeText_groupText,
      List.flatten_cons, List.flatMap_append]

/-! ## One object -/

/-- An object without separators is decoded as it is. -/
theorem decodeText_unbroken {object : Json.Dict F}
    (h : ∀ c ∈ dump text object.toJson, isLineBreak c = false) :
    decodeText text (chunkText text object) = [object.toJson] := by
  obtain ⟨t, ht⟩ := Json.dump_object text object.fields
  have hstrip : stripChars (dump text object.toJson) = dump text object.toJson := by
    rw [Json.Dict.toJson, ht, PyText.stripChars_of_ends (by decide) (by decide)]
  have hne : dump text object.toJson ≠ [] := by
    rw [Json.Dict.toJson, ht]
    exact List.cons_ne_nil _ _
  have hload : loads text (dump text object.toJson) = some object.toJson :=
    Json.loads_dump text object.wellFormed
  unfold decodeText splitLines chunkText
  rw [PyText.splitLinesFrom_of_forall [] h]
  simp [hstrip, hne, hload]

theorem unbroken_of_mem_decodeText (text : FloatText F) {object : Json.Dict F} {v : Json F}
    (hv : v ∈ decodeText text (chunkText text object)) : v.AllStrings Unbroken := by
  by_cases hbroken : ∀ c ∈ dump text object.toJson, isLineBreak c = false
  · rw [decodeText_unbroken text hbroken, List.mem_singleton] at hv
    rw [hv]
    exact (Json.dump_unbroken_iff text _).mp hbroken
  · push Not at hbroken
    obtain ⟨p, hp, hload⟩ := List.mem_filterMap.mp hv
    simp only at hload
    split_ifs at hload
    have hrun := Json.Scan.run_dump text object.toJson []
    rw [List.append_nil] at hrun
    refine Json.loads_strip_cut (Json.cut_of_mem_lines [] rfl ?_ ?_ hp) hload
    · rw [hrun]
      rfl
    · simpa using hbroken

/-! ## The whole stream -/

/-- The worker decodes what the stream encodes, in every grouping into byte chunks, exactly if
no key and no string in the objects has one of the separators U+0085, U+2028 and U+2029. -/
theorem decodeStream_encode_iff (text : FloatText F) (groups : List (List (Json.Dict F))) :
    decodeStream text (groups.map (encodeGroup text)) = some (groups.flatten.map Json.Dict.toJson) ↔
      ∀ object ∈ groups.flatten, object.toJson.AllStrings Unbroken := by
  rw [decodeStream_encode, Option.some.injEq]
  constructor
  · intro heq object hobject
    have hmem : object.toJson ∈ groups.flatten.flatMap
        fun object => decodeText text (chunkText text object) := by
      rw [heq]
      exact List.mem_map_of_mem hobject
    obtain ⟨source, -, hsource⟩ := List.mem_flatMap.mp hmem
    exact unbroken_of_mem_decodeText text hsource
  · intro h
    generalize groups.flatten = objects at h
    induction objects with
    | nil => rfl
    | cons object objects ih =>
      obtain ⟨hobject, hobjects⟩ := List.forall_mem_cons.mp h
      have hline := (Json.dump_unbroken_iff text _).mpr hobject
      rw [List.flatMap_cons, decodeText_unbroken text hline, ih hobjects, List.map_cons,
        List.singleton_append]

/-- A loading chunk whose response has the line separator U+2028. -/
def separatorChunk : Json.Dict Unit :=
  chunkObject ⟨.str "request-1", trivial⟩ none "thread-1" ⟨.str "a\u2028b", trivial⟩ none
    ⟨[("status", .str "loading")], ⟨by decide, trivial, trivial⟩⟩

/-- A response with a separator is dropped: the worker decodes nothing. -/
theorem separator_drops_chunk :
    decodeStream FloatText.zero [encodeGroup FloatText.zero [separatorChunk]] = some [] ∧
      decodeStream FloatText.zero [encodeGroup FloatText.zero [separatorChunk]] ≠
        some [separatorChunk.toJson] := by
  have hdecode : decodeStream FloatText.zero [encodeGroup FloatText.zero [separatorChunk]] = some [] := by
    have hempty : (decodeText FloatText.zero (chunkText FloatText.zero separatorChunk)).isEmpty := by
      decide +kernel
    have hstream := decodeStream_encode FloatText.zero [[separatorChunk]]
    simpa [List.isEmpty_iff.mp hempty] using hstream
  exact ⟨hdecode, by simp [hdecode]⟩

end Yuanlei
