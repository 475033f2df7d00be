import Mathlib.Data.Prod.Lex
import Yuanlei.Lib.JsonRoundTrip
import Yuanlei.Lib.EventLog
import Yuanlei.Lib.PyText

/-!
# Run events

The entries of a run's Redis stream: the envelope of an event, its text in the
stream, the row that is read back, and the compact form that clients get which did
not ask for verbose events.

Main results:

- `decodeRunStreamRow_appendFields`: a row is read back as it was appended.
- `compactRunEventEnvelope_eq_none`: only agent states without content are dropped.
-/

universe u

open Json (FloatText Dict Value)

namespace Yuanlei

variable {F : Type u}

/-- A Redis stream id: milliseconds, then a sequence number. -/
abbrev EventId :=
  ℕ ×ₗ ℕ

/-- The id `0-0`, which no entry has. -/
def EventId.zero : EventId :=
  toLex (0, 0)

/-- Floating-point numbers with their text and the comparisons with zero and one. -/
structure Floats (F : Type u) extends FloatText F where
  isZero : F → Bool
  isOne : F → Bool

/-- Floating-point numbers of which there is only zero. -/
def Floats.zero : Floats Unit where
  toFloatText := FloatText.zero
  isZero _ := true
  isOne _ := false

/-! ## Values -/

/-- The fields of a dictionary. -/
abbrev Fields (F : Type u) :=
  List (String × Json F)

/-- The value of a key that is present. -/
def Fields.find (fields : Fields F) (key : String) : Option (Json F) :=
  (List.find? (fun e => e.1 == key) fields).map Prod.snd

def Fields.get (fields : Fields F) (key : String) : Json F :=
  (fields.find key).getD .null

/-- The fields of a value that is a dictionary. -/
def dictFields : Json F → Option (Fields F)
  | .obj fields => some fields
  | _ => none

/-- A string that is not empty. -/
def nonEmptyText : Json F → Option String
  | .str s => if s = "" then none else some s
  | _ => none

/-- The truth value of an object. -/
def truthy (floats : Floats F) : Json F → Bool
  | .null => false
  | .bool b => b
  | .int i => i != 0
  | .float x => !floats.isZero x
  | .str s => s != ""
  | .arr items => !items.isEmpty
  | .obj fields => !fields.isEmpty

/-- `value is not None`. -/
def notNone : Json F → Bool
  | .null => false
  | _ => true

/-- `value is not None and value != ""`. -/
def filled : Json F → Bool
  | .null => false
  | .str s => s != ""
  | _ => true

/-- The fields with the given keys whose values pass a test. -/
def pick (test : Json F → Bool) (keys : List String) (fields : Fields F) : Fields F :=
  keys.filterMap fun key =>
    match fields.find key with
    | some value => if test value then some (key, value) else none
    | none => none

/-! ## Rows -/

/-- The fields of a stream entry. -/
structure StreamFields where
  eventType : String
  payload : List Char

/-- A row of `list_run_stream_events`. -/
structure RunEventRow (F : Type u) where
  seq : EventId
  eventType : String
  payload : Fields F

def buildRunEventEnvelope (runId eventType : String) (payload : Dict F)
    (threadId : Option String) (createdAt : String) : Dict F :=
  .ofPairs [("schema_version", ⟨.int 1, trivial⟩), ("run_id", ⟨.str runId, trivial⟩),
      ("thread_id", ⟨(threadId.map Json.str).getD .null, by cases threadId <;> trivial⟩),
      ("event", ⟨.str eventType, trivial⟩),
      ("payload", payload.value),
      ("created_at", ⟨.str createdAt, trivial⟩)]
    .empty

def payloadThreadId (payload : Dict F) : Option String :=
  match dictFields (Fields.get payload.fields "chunk") with
  | none => none
  | some chunk =>
    match Fields.get chunk "thread_id" with
    | .str threadId => if PyText.strip threadId = "" then none else some (PyText.strip threadId)
    | _ => none

/-- The envelope of `append_run_stream_event`. -/
def appendEnvelope (runId eventType : String) (payload : Dict F) (threadId : Option String)
    (createdAt : String) : Dict F :=
  buildRunEventEnvelope runId eventType payload
    ((threadId.filter (· ≠ "")).orElse fun _ => payloadThreadId payload) createdAt

/-- The fields that `append_run_stream_event` adds to the stream. -/
def appendFields (floats : Floats F) (runId eventType : String) (payload : Dict F)
    (threadId : Option String) (createdAt : String) : StreamFields where
  eventType := eventType
  payload := Json.dump floats.toFloatText (appendEnvelope runId eventType payload threadId
    createdAt).toJson

/-- `value == 1`. -/
def isOne (floats : Floats F) : Json F → Bool
  | .int i => i == 1
  | .bool b => b
  | .float x => floats.isOne x
  | _ => false

/-- The envelope of a payload of the first version. -/
def legacyEnvelope (runId eventType : String) (payload : Fields F) : Fields F :=
  [("schema_version", .int 1), ("run_id", .str runId), ("thread_id", .null),
    ("event", .str eventType), ("payload", .obj payload), ("created_at", .null)]

def decodeRunStreamRow (floats : Floats F) (runId : String) (entry : EventId × StreamFields) :
    RunEventRow F :=
  let eventType := if entry.2.eventType = "" then "message" else entry.2.eventType
  let payload := ((Json.loads floats.toFloatText entry.2.payload).getD (.obj []))
  { seq := entry.1
    eventType := eventType
    payload :=
      match dictFields payload with
      | none => legacyEnvelope runId eventType []
      | some fields =>
        if isOne floats (Fields.get fields "schema_version") then fields
        else legacyEnvelope runId eventType fields }

theorem buildRunEventEnvelope_fields (runId eventType : String) (payload : Dict F)
    (threadId : Option String) (createdAt : String) :
    (buildRunEventEnvelope runId eventType payload threadId createdAt).fields =
      [("schema_version", .int 1), ("run_id", .str runId),
        ("thread_id", (threadId.map Json.str).getD .null), ("event", .str eventType),
        ("payload", payload.toJson), ("created_at", .str createdAt)] := by
  unfold buildRunEventEnvelope Dict.ofPairs
  refine (Json.dictOf_of_nodup ?_).trans rfl
  simp [Dict.empty]

theorem decodeRunStreamRow_appendFields (floats : Floats F) (runId eventType : String)
    (payload : Dict F) (threadId : Option String) (createdAt : String) (id : EventId) :
    decodeRunStreamRow floats runId
        (id, appendFields floats runId eventType payload threadId createdAt) =
      { seq := id
        eventType := if eventType = "" then "message" else eventType
        payload := (appendEnvelope runId eventType payload threadId createdAt).fields } := by
  have hload := Json.loads_dump floats.toFloatText
    (appendEnvelope runId eventType payload threadId createdAt).wellFormed
  have hversion : isOne floats (Fields.get
      (appendEnvelope runId eventType payload threadId createdAt).fields "schema_version") := by
    rw [appendEnvelope, buildRunEventEnvelope_fields]
    simp [Fields.get, Fields.find, isOne]
  simp only [decodeRunStreamRow, appendFields, Dict.toJson, hload, dictFields, hversion,
    Option.getD_some, if_true]
  rfl

/-! ## Compact events -/

def compactMessageDict (floats : Floats F) (message : Fields F) : Fields F :=
  pick notNone ["id", "role", "content", "type", "message_type"] message ++
    match dictFields (message.get "extra_metadata") with
    | none => []
    | some extra =>
      if truthy floats (extra.get "attachments") then
        [("extra_metadata", .obj [("attachments", extra.get "attachments")])]
      else []

def compactSemanticStreamEvent (floats : Floats F) (event : Fields F) : Fields F :=
  let other := event.filter fun e => e.1 != "thread_id" && e.1 != "namespace"
  match event.get "type" with
  | .str eventType =>
    if eventType = "message_delta" then
      pick (truthy floats)
        ["type", "message_id", "content", "reasoning_content", "additional_reasoning_content"]
        event
    else if eventType = "tool_call" ∨ eventType = "tool_call_delta" then
      pick filled ["type", "message_id", "tool_call_id", "name", "args", "args_delta"] event ++
        if truthy floats (event.get "index") then [("index", event.get "index")] else []
    else other
  | _ => other

def compactToolStreamEvent (floats : Floats F) (event : Fields F) : Fields F :=
  pick (truthy floats) ["method"] event ++
    match dictFields (event.get "data") with
    | none => []
    | some data =>
      let compactData := pick filled ["event", "tool_call_id", "tool_name", "output", "error"] data
      if compactData.isEmpty then [] else [("data", .obj compactData)]

def compactStreamChunk (floats : Floats F) (chunk : Fields F) : Fields F :=
  let sub (key : String) (compact : Fields F → Fields F) : Fields F :=
    match dictFields (chunk.get key) with
    | none => []
    | some fields => [(key, .obj (compact fields))]
  pick filled ["status", "run_id", "message", "error_type", "error_message", "retryable", "job_try",
      "questions", "approval", "interrupt_info", "source", "agent_state", "compression"] chunk ++
    sub "msg" (compactMessageDict floats) ++
    sub "stream_event" (compactSemanticStreamEvent floats) ++
    sub "event" (compactToolStreamEvent floats)

def requestIdFromChunk (chunk : Json F) : Option String :=
  match dictFields chunk with
  | none => none
  | some fields =>
    match nonEmptyText (fields.get "request_id") with
    | some requestId => some requestId
    | none =>
      match dictFields (fields.get "msg") with
      | none => none
      | some message =>
        match dictFields (message.get "extra_metadata") with
        | none => none
        | some extra => nonEmptyText (extra.get "request_id")

def requestIdFromPayload (payload : Json F) : Option String :=
  match dictFields payload with
  | none => none
  | some fields =>
    match nonEmptyText (fields.get "request_id") with
    | some requestId => some requestId
    | none =>
      match requestIdFromChunk (fields.get "chunk") with
      | some requestId => some requestId
      | none =>
        match fields.get "items" with
        | .arr items => items.findSome? requestIdFromChunk
        | _ => none

def compactRunEventPayload (floats : Floats F) (eventType : String) (payload : Json F) : Fields F :=
  match dictFields payload with
  | none => []
  | some fields =>
    let chunk : Fields F :=
      match dictFields (fields.get "chunk") with
      | none => []
      | some chunk => [("chunk", .obj (compactStreamChunk floats chunk))]
    if eventType = "messages" then
      (match fields.get "items" with
        | .arr items =>
          [("items", .arr (items.map fun item =>
            match dictFields item with
            | none => item
            | some fields => .obj (compactStreamChunk floats fields)))]
        | _ => []) ++ chunk
    else (fields.filter fun e => e.1 != "chunk" && e.1 != "request_id") ++ chunk

def isEmptyAgentState (floats : Floats F) (agentState : Json F) : Bool :=
  match dictFields agentState with
  | none => false
  | some fields => fields.all fun e => !truthy floats e.2

/-- The name of the event; a name that is no string is none of those that are compared. -/
def eventName (envelope : Fields F) : String :=
  (nonEmptyText (envelope.get "event")).getD ""

/-- The agent state of an event, or that of its chunk, is empty. -/
def emptyAgentStateEvent (floats : Floats F) (envelope : Fields F) : Bool :=
  eventName envelope == "custom" &&
    match dictFields (envelope.get "payload") with
    | none => false
    | some payload =>
      nonEmptyText (payload.get "name") == some "yuxi.agent_state" &&
        (isEmptyAgentState floats (payload.get "agent_state") ||
          isEmptyAgentState floats
            (Fields.get ((dictFields (payload.get "chunk")).getD []) "agent_state"))

def compactRunEventEnvelope (floats : Floats F) (envelope : Fields F) : Option (Fields F) :=
  let payload := envelope.get "payload"
  let head := pick (fun _ => true) ["run_id", "thread_id"] envelope
  if eventName envelope = "metadata" then
    some (head ++ [("payload", .obj (match dictFields payload with
      | none => []
      | some fields => pick (fun _ => true) ["run_type", "source"] fields))])
  else if emptyAgentStateEvent floats envelope then none
  else
    some (head ++
      ((requestIdFromPayload payload).map fun id => ("request_id", Json.str id)).toList ++
      [("payload", .obj (compactRunEventPayload floats (eventName envelope) payload))])

/-- Only agent states without content are dropped. -/
theorem compactRunEventEnvelope_eq_none {floats : Floats F} {envelope : Fields F} :
    compactRunEventEnvelope floats envelope = none ↔ emptyAgentStateEvent floats envelope := by
  unfold compactRunEventEnvelope
  simp only
  split_ifs with hmetadata hempty
  · simp [emptyAgentStateEvent, hmetadata]
  · simp [hempty]
  · simp [hempty]

end Yuanlei
