import Mathlib.Data.List.Basic
import Mathlib.Tactic.Common

/-!
# Merging message chunks

The page keeps the chunks of every message and merges them into the message that it shows:
`MessageProcessor.mergeMessageChunk` takes the first chunk and adds text and tool calls of the
later ones.  Texts are sequences of UTF-16 code units; the content of a chunk is a text.

Main results:

- `mergeMessageChunk_eq`: the merged message has the identity of the first chunk, all
  texts in their order, and the tool calls of all tool call chunks.
-/

namespace Yuanlei.WebClient

/-- A string of ECMAScript. -/
abbrev JsString :=
  List UInt16

/-! ## Chunks -/

structure ToolCallChunk where
  index : Option Int
  id : Option String
  name : Option String
  args : Option JsString
  complete : Bool
deriving DecidableEq

structure ToolCall where
  index : Option Int
  id : Option String
  name : Option String
  args : JsString
deriving DecidableEq

/-- The fields of a chunk that are read; `none` stands for a missing one. -/
structure MessageChunk where
  id : String
  type : Option String
  runId : Option String
  content : Option JsString
  reasoningContent : Option JsString
  toolCalls : Option (List ToolCall)
  toolCallChunks : List ToolCallChunk
deriving DecidableEq

/-- A merged message. -/
structure Message where
  id : String
  type : Option String
  runId : Option String
  content : JsString
  reasoningContent : Option JsString
  toolCalls : Option (List ToolCall)
deriving DecidableEq

/-! ## Merging -/

/-- A text that is there and not empty. -/
def present (text : Option String) : Option String :=
  text.filter (· ≠ "")

/-- A tool call chunk is added to the call with its index. -/
def ToolCall.extend (call : ToolCall) (chunk : ToolCallChunk) : ToolCall where
  index := call.index
  name := if (present chunk.name).isSome then chunk.name else call.name
  id := if (present chunk.id).isSome ∧ (present call.id).isNone then chunk.id else call.id
  args := if chunk.complete then chunk.args.getD [] else call.args ++ chunk.args.getD []

/-- The call that a chunk starts. -/
def ToolCallChunk.start (chunk : ToolCallChunk) : ToolCall where
  index := chunk.index
  id := chunk.id
  name := present chunk.name
  args := chunk.args.getD []

/-- One round of `_mergeToolCalls`: the first call with the index of the chunk is extended. -/
def mergeToolCallChunk (calls : List ToolCall) (chunk : ToolCallChunk) : List ToolCall :=
  match calls.findIdx? fun call => call.index == chunk.index with
  | some i => calls.modify i fun call => call.extend chunk
  | none => calls ++ [chunk.start]

def mergeToolCalls (calls : Option (List ToolCall)) (chunks : List ToolCallChunk) :
    Option (List ToolCall) :=
  if chunks = [] then calls else some (chunks.foldl mergeToolCallChunk (calls.getD []))

/-- The result that the first chunk starts. -/
def startMessage (chunk : MessageChunk) : Message where
  id := chunk.id
  type := chunk.type
  runId := chunk.runId
  content := chunk.content.getD []
  reasoningContent := chunk.reasoningContent
  toolCalls := mergeToolCalls chunk.toolCalls chunk.toolCallChunks

/-- A later chunk is added. -/
def addChunk (result : Message) (chunk : MessageChunk) : Message where
  id := result.id
  type := result.type
  runId := result.runId
  content := result.content ++ chunk.content.getD []
  reasoningContent :=
    match chunk.reasoningContent with
    | some (c :: cs) => some (result.reasoningContent.getD [] ++ c :: cs)
    | _ => result.reasoningContent
  toolCalls := mergeToolCalls result.toolCalls chunk.toolCallChunks

/-- The type of a merged message. -/
def mergedType (type : Option String) : Option String :=
  if type = some "AIMessageChunk" then some "ai" else type

def mergeMessageChunk : List MessageChunk → Option Message
  | [] => none
  | chunk :: chunks =>
    let result := chunks.foldl addChunk (startMessage chunk)
    some { result with type := mergedType result.type }

/-! ## The parts of a merged message -/

def MessageChunk.text (chunk : MessageChunk) : JsString :=
  chunk.content.getD []

def MessageChunk.reasoning (chunk : MessageChunk) : JsString :=
  chunk.reasoningContent.getD []

theorem mergeToolCalls_append (calls : Option (List ToolCall)) (chunks chunks' : List ToolCallChunk) :
    mergeToolCalls (mergeToolCalls calls chunks) chunks' = mergeToolCalls calls (chunks ++ chunks') := by
  unfold mergeToolCalls
  by_cases h : chunks = []
  · simp [h]
  · by_cases h' : chunks' = []
    · simp [h, h']
    · simp [h, h', List.foldl_append]

theorem addChunk_reasoning (result : Message) (chunk : MessageChunk) :
    (addChunk result chunk).reasoningContent.getD [] =
      result.reasoningContent.getD [] ++ chunk.reasoning := by
  unfold addChunk MessageChunk.reasoning
  rcases hreasoning : chunk.reasoningContent with _ | _ | ⟨c, cs⟩ <;> simp

theorem foldl_addChunk (chunks : List MessageChunk) : ∀ result : Message,
    let merged := chunks.foldl addChunk result
    merged.id = result.id ∧ merged.type = result.type ∧ merged.runId = result.runId ∧
      merged.content = result.content ++ chunks.flatMap MessageChunk.text ∧
      merged.reasoningContent.getD [] =
        result.reasoningContent.getD [] ++ chunks.flatMap MessageChunk.reasoning ∧
      merged.toolCalls =
        mergeToolCalls result.toolCalls (chunks.flatMap MessageChunk.toolCallChunks) := by
  induction chunks with
  | nil =>
    intro result
    simp [mergeToolCalls]
  | cons chunk chunks ih =>
    intro result
    obtain ⟨hid, htype, hrunId, hcontent, hreasoning, htools⟩ := ih (addChunk result chunk)
    refine ⟨hid, htype, hrunId, ?_, ?_, ?_⟩
    · rw [List.foldl_cons, hcontent, List.flatMap_cons, ← List.append_assoc]
      rfl
    · rw [List.foldl_cons, hreasoning, addChunk_reasoning, List.flatMap_cons, List.append_assoc]
    · rw [List.foldl_cons, htools, List.flatMap_cons, ← mergeToolCalls_append]
      rfl

/-- The merged message has the identity of the first chunk, all texts in their order, and the tool
calls of all tool call chunks. -/
theorem mergeMessageChunk_eq (chunk : MessageChunk) (chunks : List MessageChunk) :
    ∃ reasoningContent, mergeMessageChunk (chunk :: chunks) =
        some
          { id := chunk.id
            type := mergedType chunk.type
            runId := chunk.runId
            content := (chunk :: chunks).flatMap MessageChunk.text
            reasoningContent
            toolCalls := mergeToolCalls chunk.toolCalls
              ((chunk :: chunks).flatMap MessageChunk.toolCallChunks) } ∧
      reasoningContent.getD [] = (chunk :: chunks).flatMap MessageChunk.reasoning := by
  obtain ⟨hid, htype, hrunId, hcontent, hreasoning, htools⟩ :=
    foldl_addChunk chunks (startMessage chunk)
  refine ⟨(chunks.foldl addChunk (startMessage chunk)).reasoningContent, ?_, ?_⟩
  · simp only [mergeMessageChunk, hid, htype, hrunId, hcontent, htools, List.flatMap_cons,
      ← mergeToolCalls_append]
    rfl
  · rw [hreasoning, List.flatMap_cons]
    rfl

end Yuanlei.WebClient
