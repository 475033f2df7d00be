import Yuanlei.Lib.Utf8Stream
import Yuanlei.Storage.Business
import Yuanlei.Stream.RunEvents
import Yuanlei.Stream.ServerSentEvents

/-!
# The event client of the web page

The page follows a run through `startRunStream`.  A connection is read by
`processRunSseResponse`: bytes are decoded, cut into lines and collected into records, and
each record goes to the handler of the run, which drops what it has seen before.  The network cuts
the bytes wherever it wants to and breaks connections at any byte.

Main definitions:

- `readLine`: one line of a response.
- `onRunEvent`: the handler of a record.
-/

universe u

open Json (FloatText Dict loads)

namespace Yuanlei.WebClient

variable {F : Type u}

/-! ## Texts -/

/-- White space and line terminators of ECMAScript. -/
def isJsSpace (c : Char) : Bool :=
  c.toNat ∈ [9, 10, 11, 12, 13, 32, 0xA0, 0x1680, 0x2028, 0x2029, 0x202F, 0x205F, 0x3000, 0xFEFF] ||
    (0x2000 ≤ c.toNat && c.toNat ≤ 0x200A)

def trimStart (t : List Char) : List Char :=
  t.dropWhile isJsSpace

def trim (t : List Char) : List Char :=
  (trimStart t).rdropWhile isJsSpace

/-- `/^\d+-\d+$/` -/
def matchesRunSeqPattern (t : List Char) : Bool :=
  match t.dropWhile Char.isDigit with
  | '-' :: minor => !(t.takeWhile Char.isDigit).isEmpty && !minor.isEmpty && minor.all Char.isDigit
  | _ => false

def normalizeRunSeq (t : List Char) : List Char :=
  if matchesRunSeqPattern (trim t) then trim t else "0-0".toList

/-- `parseRunSeq`: major and minor number. -/
def parseRunSeq (t : List Char) : EventId :=
  let text := normalizeRunSeq t
  toLex (Nat.ofDigitChars 10 (text.takeWhile Char.isDigit) 0,
    Nat.ofDigitChars 10 ((text.dropWhile Char.isDigit).drop 1) 0)

def compareRunSeq (incoming current : List Char) : Int :=
  let left := ofLex (parseRunSeq incoming)
  let right := ofLex (parseRunSeq current)
  if right.1 < left.1 then 1
  else if left.1 < right.1 then -1
  else if right.2 < left.2 then 1
  else if left.2 < right.2 then -1
  else 0

/-! ## Values -/

/-- The number is one that JSON has no text for. -/
def isConstant (floats : Floats F) (x : F) : Bool :=
  floats.repr x ∈ ["NaN".toList, "Infinity".toList, "-Infinity".toList]

mutual

/-- All numbers of a value are finite. -/
def finite (floats : Floats F) : Json F → Bool
  | .float x => !isConstant floats x
  | .arr items => finiteItems floats items
  | .obj fields => finiteFields floats fields
  | _ => true

def finiteItems (floats : Floats F) : List (Json F) → Bool
  | [] => true
  | item :: items => finite floats item && finiteItems floats items

def finiteFields (floats : Floats F) : List (String × Json F) → Bool
  | [] => true
  | (_, value) :: fields => finite floats value && finiteFields floats fields

end

/-- `JSON.parse`: unlike `json.loads` it has no names for the numbers that are not
finite. -/
def jsonParse (floats : Floats F) (t : List Char) : Option (Json F) :=
  (loads floats.toFloatText t).filter (finite floats)

/-- The truth value of a parsed value; arrays and objects are true. -/
def isFalsy (floats : Floats F) : Json F → Bool
  | .null => true
  | .bool b => !b
  | .int i => i == 0
  | .float x => floats.isZero x
  | .str s => s == ""
  | .arr _ => false
  | .obj _ => false

/-- `value?.[name]` for a name that only plain objects have. -/
def property (value : Option (Json F)) (name : String) : Option (Json F) :=
  match value with
  | some (.obj fields) => Fields.find fields name
  | _ => none

/-! ## Reading a response -/

/-- A record that is handed to `onEvent`. -/
structure RunRecord (F : Type u) where
  event : List Char
  data : Json F
  eventId : Option (List Char)

/-- The variables of `processRunSseResponse`; `undecoded` is the state of the decoder. -/
structure SseReader where
  undecoded : List UInt8 := []
  buffer : List Char := []
  eventType : List Char := "message".toList
  eventId : Option (List Char) := none
  dataLines : List (List Char) := []

namespace SseReader

def dispatch (floats : Floats F) (r : SseReader) : Option (RunRecord F) :=
  if r.dataLines = [] then none
  else
    (jsonParse floats (joinLines r.dataLines)).map fun data =>
      { event := r.eventType, data, eventId := r.eventId }

/-- `rawLine.replace(/\r$/, '')` -/
def dropReturn (rawLine : List Char) : List Char :=
  if rawLine.getLast? = some '\r' then rawLine.dropLast else rawLine

/-- The name of an event; without one it is a message. -/
def eventName (value : List Char) : List Char :=
  if trim value = [] then "message".toList else trim value

/-- The fields after a line that is not empty. -/
def field (r : SseReader) (line : List Char) : SseReader :=
  if ":".toList.isPrefixOf line then r
  else if "event:".toList.isPrefixOf line then { r with eventType := eventName (line.drop 6) }
  else if "data:".toList.isPrefixOf line then
    { r with dataLines := r.dataLines ++ [trimStart (line.drop 5)] }
  else if "id:".toList.isPrefixOf line then { r with eventId := some (trim (line.drop 3)) }
  else r

/-- The fields of the next record. -/
def reset (r : SseReader) : SseReader :=
  { r with eventType := "message".toList, eventId := none, dataLines := [] }

end SseReader

/-! ## The handler of a run -/

/-- The state of a thread; `passed` and `dispatched` record what has passed the guard and
what has reached `dispatchRunEventChunks`. -/
structure ThreadState (F : Type u) where
  activeRunId : Option RunId
  runLastSeq : List Char
  passed : List (RunRecord F)
  dispatched : List (RunRecord F)

section Handler

variable (floats : Floats F) (runId : RunId) (pendingInterrupt : List (RunRecord F) → Bool)

/-- `finalizeRunStream` for the run of the stream. -/
def finalizeRunStream (ts : ThreadState F) (status : String) : ThreadState F :=
  if ts.activeRunId = some runId then
    { ts with
      activeRunId :=
        if status = "interrupted" ∧ pendingInterrupt ts.dispatched then some runId else none }
  else ts

/-- The status that an `end` event reports. -/
def endStatus (r : RunRecord F) : Option String :=
  match property (property (some r.data) "payload") "status" with
  | some (.str status) => some status
  | _ => none

def runTerminalStatuses : List String :=
  ["completed", "failed", "cancelled"]

/-- `value === true` -/
def isTrue : Option (Json F) → Bool
  | some (.bool true) => true
  | _ => false

/-- An error after which the worker tries again. -/
def isRetryableError (r : RunRecord F) : Bool :=
  let payload := property (some r.data) "payload"
  r.event == "error".toList && (isTrue (property payload "retryable") ||
      isTrue (property (property payload "chunk") "retryable"))

/-- The end of the handler: the last event of a run settles it. -/
def settleRunEvent (ts : ThreadState F) (r : RunRecord F) : ThreadState F :=
  let ts :=
    if r.event = "end".toList then
      match endStatus r with
      | some status =>
        if status = "interrupted" ∨ status ∈ runTerminalStatuses then
          finalizeRunStream runId pendingInterrupt ts status
        else ts
      | none => ts
    else ts
  if r.event = "error".toList then finalizeRunStream runId pendingInterrupt ts "" else ts

/-- The handler after the guard. -/
def applyRunEvent (ts : ThreadState F) (r : RunRecord F) : ThreadState F :=
  if isRetryableError r then ts
  else settleRunEvent runId pendingInterrupt { ts with dispatched := ts.dispatched ++ [r] } r

/-- The id of a record; an empty one counts as none. -/
def RunRecord.seq (r : RunRecord F) : Option (List Char) :=
  r.eventId.filter (· ≠ [])

/-- The handler of `startRunStream`. -/
def onRunEvent (ts : ThreadState F) (r : RunRecord F) : ThreadState F :=
  if isFalsy floats r.data ∨ ts.activeRunId ≠ some runId then ts
  else
    match r.seq with
    | none => applyRunEvent runId pendingInterrupt ts r
    | some eventId =>
      if compareRunSeq (normalizeRunSeq eventId) ts.runLastSeq ≤ 0 then ts
      else
        applyRunEvent runId pendingInterrupt
          { ts with runLastSeq := normalizeRunSeq eventId, passed := ts.passed ++ [r] } r

end Handler

/-! ## The page -/

/-- The state of a thread and its connection; `incoming` are the bytes that are still to
come. -/
structure Page (F : Type u) where
  thread : ThreadState F
  incoming : Option (List UInt8)
  reader : SseReader

def Page.initial : Page F where
  thread := { activeRunId := none, runLastSeq := "0-0".toList, passed := [], dispatched := [] }
  incoming := none
  reader := {}

section Reading

variable (floats : Floats F) (runId : RunId) (pendingInterrupt : List (RunRecord F) → Bool)

/-- The record of the reader, if there is one, goes to the handler. -/
def flush (σ : Page F) : ThreadState F :=
  match σ.reader.dispatch floats with
  | none => σ.thread
  | some r => onRunEvent floats runId pendingInterrupt σ.thread r

/-- One line of the response. -/
def readLine (σ : Page F) (rawLine : List Char) : Page F :=
  let line := SseReader.dropReturn rawLine
  if line = [] then
    { σ with thread := flush floats runId pendingInterrupt σ, reader := σ.reader.reset }
  else { σ with reader := σ.reader.field line }

/-- The text of one chunk: its lines are handled, and the last piece is kept. -/
def readText (σ : Page F) (t : List Char) : Page F :=
  let lines := (σ.reader.buffer ++ t).splitOn '\n'
  lines.dropLast.foldl (readLine floats runId pendingInterrupt)
    { σ with reader := { σ.reader with buffer := lines.getLastD [] } }

/-- One chunk of the response. -/
def readChunk (σ : Page F) (chunk : List UInt8) : Page F :=
  let decoded := Utf8.decode (σ.reader.undecoded ++ chunk)
  readText floats runId pendingInterrupt
    { σ with reader := { σ.reader with undecoded := decoded.2 } } decoded.1

end Reading

/-! ## The log and the network -/

/-- An event of the log: its type and its envelope. -/
structure LogEvent (F : Type u) where
  eventType : String
  envelope : Dict F
  oneLine : ∀ c ∈ eventType.toList, PyText.isLineBreak c = false

/-- The log of a run; Redis gives no entry the id zero. -/
structure RunLog (F : Type u) extends EventLog EventId (LogEvent F) where
  positive : ∀ e ∈ entries, EventId.zero < e.1

/-- The text of a Redis id. -/
def idText (id : EventId) : List Char :=
  Nat.toDigits 10 (ofLex id).1 ++ '-' :: Nat.toDigits 10 (ofLex id).2

/-- The arguments of `format_sse` for an entry. -/
def sseMessage (e : EventId × LogEvent F) : SseMessage F where
  data := e.2.envelope.value
  event := e.2.eventType
  eventId := some (String.ofList (idText e.1))
  oneLine := e.2.oneLine

/-- What the server sends for some entries, with heartbeats in between. -/
def serverItems : List Nat → List (EventId × LogEvent F) → List (SseItem F)
  | [], entries => entries.map fun e => .message (sseMessage e)
  | n :: _, [] => List.replicate n .heartbeat
  | n :: beats, e :: entries =>
    List.replicate n .heartbeat ++ .message (sseMessage e) :: serverItems beats entries

/-- The network and the page: a connection is opened, brings bytes, ends or breaks, and the run is
settled after a look at its status. -/
inductive NetworkEvent where
  | connect (beats : List Nat)
  | receive (n : Nat)
  | close
  | fail
  | settle (status : String)
  | preserve

/-- One event of the network or of the page. -/
def networkStep (floats : Floats F) (runId : RunId) (pendingInterrupt : List (RunRecord F) → Bool)
    (log : RunLog F) (σ : Page F) : NetworkEvent → Page F
  | .connect beats =>
    let seq := normalizeRunSeq σ.thread.runLastSeq
    { thread := { σ.thread with activeRunId := some runId, runLastSeq := seq }
      incoming := some (Utf8.encode
        (sseText floats.toFloatText (serverItems beats (log.after (parseRunSeq seq)))))
      reader := {} }
  | .receive n =>
    match σ.incoming with
    | none => σ
    | some bytes =>
      readChunk floats runId pendingInterrupt { σ with incoming := some (bytes.drop n) }
        (bytes.take n)
  | .close =>
    match σ.incoming with
    | none => σ
    | some _ => { σ with thread := flush floats runId pendingInterrupt σ, incoming := none }
  | .fail => { σ with incoming := none }
  | .settle status => { σ with thread := finalizeRunStream runId pendingInterrupt σ.thread status }
  | .preserve =>
    { σ with
      thread :=
        { σ.thread with
          activeRunId := some runId
          runLastSeq := normalizeRunSeq σ.thread.runLastSeq }
      incoming := none }

end Yuanlei.WebClient
