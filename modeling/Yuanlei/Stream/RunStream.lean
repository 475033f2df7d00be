import Yuanlei.Stream.RunEvents
import Yuanlei.Execution.Evolution

/-!
# The event stream of a run

A client follows a run through `stream_agent_run_events`.  In every round the generator
reads the entries of the run's Redis stream after its cursor, yields them one by one,
reloads the run from the database when the status check is due, and ends by yielding an
`end` event of its own when it knows the run to be finished and the round's read was
empty.  The services write the database and the worker appends to the stream at any time
in between.

Main results:

- `streamStep`: one step of the services, of the worker or of the client.
- `serviceStep_keepsTerminal`: no step of the services takes a terminal status back.
-/

universe u

open Json (Dict)
open Yuanlei.AgentRunRepository

namespace Yuanlei

variable {F : Type u}

/-! ## The client -/

/-- What the generator yields. -/
inductive Frame (F : Type u) where
  | event (data : Fields F) (event : String) (eventId : Option EventId)
  | heartbeat

namespace Frame

/-- The stream id of a frame. -/
def eventId : Frame F → Option EventId
  | event _ _ eventId => eventId
  | heartbeat => none

/-- The frame is an `end` event. -/
def isEnd : Frame F → Bool
  | event _ name _ => name == "end"
  | heartbeat => false

end Frame

/-- Where the generator stands. -/
inductive Phase (F : Type u) where
  | reading
  | emitting (rest : List (RunEventRow F)) (empty terminal : Bool)
  | polled (empty : Bool)
  | checked (empty : Bool)
  | finished

/-- The variables of the generator; `readCount` records the length of the stream at the
last read. -/
structure Connection (F : Type u) where
  afterSeq : EventId
  verbose : Bool
  startedAt : Time
  lastHeartbeat : Time
  nextStatusCheckAt : Time
  lastSeq : EventId
  run : Option AgentRun
  frames : List (Frame F)
  phase : Phase F
  readCount : Nat

/-- `SSE_HEARTBEAT_SECONDS` and `SSE_MAX_CONNECTION_MINUTES`. -/
structure SseSettings where
  heartbeatSeconds : Int
  maxConnectionMinutes : Int

def runSseStatusPollSeconds : Int :=
  5

def listRunStreamEvents (floats : Floats F) (runId : RunId)
    (log : EventLog EventId StreamFields) (afterSeq : EventId) (limit : Nat) :
    List (RunEventRow F) :=
  ((if afterSeq = EventId.zero then log.entries else log.after afterSeq).take limit).map
    (decodeRunStreamRow floats runId)

namespace Connection

/-- Yield a frame. -/
def yield (c : Connection F) (frame : Frame F) : Connection F :=
  { c with frames := c.frames ++ [frame] }

/-- Yield an error and return. -/
def fail (c : Connection F) (runId : RunId) (message : String) (reason : Option String) :
    Connection F :=
  { c.yield (.event
      ([("run_id", .str runId), ("message", .str message)] ++
        (reason.map fun reason => ("reason", Json.str reason)).toList) "error" none) with
    phase := .finished }

def missing (c : Connection F) (runId : RunId) : Connection F :=
  c.fail runId "运行任务不存在" none

def unavailable (c : Connection F) (runId : RunId) (reason : String) : Connection F :=
  c.fail runId "运行事件流暂时不可用，请重连" (some reason)

end Connection

/-- The generator before its first read, with two readings of the clocks. -/
def openConnection (afterSeq : EventId) (verbose : Bool) (startedAt startedMonotonic : Time) :
    Connection F where
  afterSeq := afterSeq
  verbose := verbose
  startedAt := startedAt
  lastHeartbeat := startedAt
  nextStatusCheckAt := startedMonotonic + runSseStatusPollSeconds
  lastSeq := afterSeq
  run := none
  frames := []
  phase := .reading
  readCount := 0

/-- The frame of a row; without `verbose` an empty agent state has none. -/
def rowFrame (floats : Floats F) (verbose : Bool) (row : RunEventRow F) : Option (Frame F) :=
  (if verbose then some row.payload else compactRunEventEnvelope floats row.payload).map
    fun data => .event data row.eventType (some row.seq)

/-- The `end` event that is made from the status in the database. -/
def terminalFrame (floats : Floats F) (verbose : Bool) (runId : RunId) (run : AgentRun)
    (createdAt : String) : Frame F :=
  let envelope := (buildRunEventEnvelope runId "end"
    ⟨[("status", .str run.status.text), ("request_id", .str run.requestId)],
      by simp [Json.WellFormed, Json.WellFormedFields]⟩
    (some run.conversationThreadId) createdAt).fields
  .event (if verbose then envelope else (compactRunEventEnvelope floats envelope).getD []) "end"
    none

/-- The run is finished and its runtime is released. -/
def AgentRun.isSettled (run : AgentRun) : Bool :=
  run.status.isTerminal && !run.runtimeCleanupPending

/-- Steps of the generator, with its readings of the clocks. -/
inductive ClientAction where
  | read
  | readFails
  | emit
  | check (now later : Time)
  | checkFails (now : Time)
  | decide (createdAt : String) (now : Time)
  | disconnect

/-- One step of the generator. -/
def clientStep (floats : Floats F) (settings : SseSettings) (runId : RunId) (db : Database)
    (log : EventLog EventId StreamFields) (c : Connection F) : ClientAction → Connection F
  | .read =>
    match c.phase with
    | .reading =>
      let events := listRunStreamEvents floats runId log c.lastSeq 200
      { c with
        phase := .emitting events events.isEmpty false
        readCount := log.entries.length }
    | _ => c
  | .readFails =>
    match c.phase with
    | .reading => c.unavailable runId "redis_error"
    | _ => c
  | .emit =>
    match c.phase with
    | .emitting [] empty terminal =>
      { c with phase := if terminal then .finished else .polled empty }
    | .emitting (row :: rest) empty terminal =>
      match rowFrame floats c.verbose row with
      | none => { c with lastSeq := row.seq, phase := .emitting rest empty terminal }
      | some frame =>
        { c.yield frame with
          lastSeq := row.seq
          phase := .emitting rest empty (terminal || row.eventType == "end") }
    | _ => c
  | .check now later =>
    match c.phase with
    | .polled empty =>
      if c.nextStatusCheckAt ≤ now then
        match db.runs.get runId with
        | none => c.missing runId
        | some run =>
          { c with
            run := some run
            nextStatusCheckAt := later + runSseStatusPollSeconds
            phase := .checked empty }
      else { c with phase := .checked empty }
    | _ => c
  | .checkFails now =>
    match c.phase with
    | .polled _ => if c.nextStatusCheckAt ≤ now then c.unavailable runId "db_error" else c
    | _ => c
  | .decide createdAt now =>
    match c.phase, c.run with
    | .checked empty, some run =>
      if run.isSettled && empty then
        { c.yield (terminalFrame floats c.verbose runId run createdAt) with phase := .finished }
      else
        let beat := settings.heartbeatSeconds ≤ now - c.lastHeartbeat
        { c with
          frames := c.frames ++ if beat then [.heartbeat] else []
          lastHeartbeat := if beat then now else c.lastHeartbeat
          phase :=
            if settings.maxConnectionMinutes * 60 ≤ now - c.startedAt then .finished
            else .reading }
    | _, _ => c
  | .disconnect => { c with phase := .finished }

/-! ## The system -/

/-- The services, the stream of one run and one client.  `committed` records how many
entries the stream had when the terminal status of the run was committed. -/
structure StreamSystem (F : Type u) where
  services : System
  log : EventLog EventId StreamFields
  committed : Option Nat
  client : Option (Connection F)

def StreamSystem.initial : StreamSystem F where
  services := System.initial
  log := .empty
  committed := none
  client := none

/-- The run has a terminal status in the database. -/
def runFinished (db : Database) (runId : RunId) : Bool :=
  (db.runs.get runId).any fun run => run.status.isTerminal

/-- Steps of the services, of the worker and of the client. -/
inductive StreamLabel (F : Type u) where
  | service (e : ServiceEvent)
  | append (id : EventId) (eventType : String) (payload : Dict F) (threadId : Option String)
      (createdAt : String)
  | connect (currentUid : String) (afterSeq : EventId) (verbose : Bool)
      (startedAt startedMonotonic : Time)
  | connectFails (afterSeq : EventId) (verbose : Bool) (startedAt startedMonotonic : Time)
  | client (action : ClientAction)

/-- One step of the system.  Redis gives every entry an id beyond those of the stream; the
worker appends an `end` event only after the terminal status was committed. -/
def streamStep (floats : Floats F) (settings : SseSettings) (runId : RunId) (s : StreamSystem F) :
    StreamLabel F → StreamSystem F
  | .service e =>
    let services := serviceStep s.services e
    { s with
      services := services
      committed :=
        if s.committed.isNone && runFinished services.db runId then some s.log.entries.length
        else s.committed }
  | .append id eventType payload threadId createdAt =>
    if h : s.log.Fresh id then
      if EventId.zero < id ∧ (eventType = "end" → runFinished s.services.db runId) then
        { s with
          log := s.log.append id
            (appendFields floats runId eventType payload threadId createdAt) h }
      else s
    else s
  | .connect currentUid afterSeq verbose startedAt startedMonotonic =>
    match s.client with
    | some _ => s
    | none =>
      let c := openConnection afterSeq verbose startedAt startedMonotonic
      match s.services.db.getRunForUser runId currentUid with
      | none => { s with client := some (c.missing runId) }
      | some run => { s with client := some { c with run := some run } }
  | .connectFails afterSeq verbose startedAt startedMonotonic =>
    match s.client with
    | some _ => s
    | none =>
      { s with
        client := some ((openConnection afterSeq verbose startedAt startedMonotonic).unavailable
          runId "db_error") }
  | .client action =>
    match s.client with
    | none => s
    | some c =>
      { s with
        client := some (clientStep floats settings runId s.services.db s.log c action) }

/-! ## Terminal runs -/

/-- Every run with a terminal status has one afterwards. -/
def KeepsTerminal (db db' : Database) : Prop :=
  ∀ runId run, db.runs.get runId = some run → run.status.isTerminal →
    ∃ run', db'.runs.get runId = some run' ∧ run'.status.isTerminal

theorem serviceStep_keepsTerminal (s : System) (e : ServiceEvent) :
    KeepsTerminal s.db (serviceStep s e).db := by
  intro runId run hrun hterminal
  obtain ⟨run', hrun', hev⟩ := serviceStep_outlive s e runId run hrun
  exact ⟨run', hrun', hev.isTerminal hterminal⟩

end Yuanlei
