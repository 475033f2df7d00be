import Yuanlei.AgentRun.Rows
import Yuanlei.Coding.TurnOutput

/-!
# Coding sessions and their turns

The tables of coding sessions, turns and events, and what the transactions of
`CodingSessionService` and `CodingExecutionService` do to them.

A transaction works on an object of the session that it may have loaded earlier.  Its checks read
the object; a write sets the columns that the object has changed and leaves the other columns of
the row as they are.

Main definitions:

- `Txn.transition`: a checked change of the status of a session.
- `Txn.startTurn`, `Txn.queueTurn`, `Txn.finishTurn`: the life of a turn.
-/

namespace Yuanlei.CodingSessions

abbrev SessionId := String

abbrev TurnId := String

/-! ## Rows -/

inductive SessionStatus where
  | pending
  | starting
  | idle
  | running
  | awaitingPlanApproval
  | suspended
  | failed
  | completed
  | cancelled
deriving DecidableEq

/-- `SESSION_TERMINAL_STATUSES` -/
def SessionStatus.isTerminal : SessionStatus → Bool
  | completed | failed | cancelled => true
  | _ => false

def allowedTransitions : SessionStatus → List SessionStatus
  | .pending => [.starting, .cancelled, .failed]
  | .starting => [.idle, .failed, .cancelled]
  | .idle => [.running, .suspended, .completed, .failed, .cancelled]
  | .running => [.idle, .awaitingPlanApproval, .suspended, .failed, .cancelled]
  | .awaitingPlanApproval => [.running, .idle, .cancelled, .failed]
  | .suspended => [.starting, .idle, .failed, .cancelled]
  | .failed | .completed | .cancelled => []

inductive TurnStatus where
  | pending
  | running
  | completed
  | failed
  | cancelled
deriving DecidableEq

/-- A turn that waits for a worker or has one. -/
def TurnStatus.isActive : TurnStatus → Bool
  | pending | running => true
  | _ => false

/-- The entry `pending_turn` of `policy_json`. -/
structure PendingTurn where
  id : TurnId
  planOnly : Bool
  enqueueingRunId : Option String
deriving DecidableEq

/-- The columns that `validate_session_scope` compares, and the owner. -/
structure SessionScope where
  uid : String
  projectId : String
  runtimeScopeId : String
  workdirPath : String
  conversationId : Option Int
deriving DecidableEq

structure CodingSession where
  scope : SessionScope
  /-- `max_turns` of the budget, where zero is no bound. -/
  maxTurns : Nat
  status : SessionStatus
  cliSessionRef : Option String
  pendingTurn : Option PendingTurn
  errorCode : Option String
  errorMessage : Option String
deriving DecidableEq

structure CodingSessionTurn where
  sessionId : SessionId
  seq : Nat
  requestText : String
  status : TurnStatus
  startedAt : Option Time
  resultSummary : Option String
  errorCode : Option String
  errorMessage : Option String
deriving DecidableEq

inductive SessionEventKind where
  | sessionStatus (status : SessionStatus) (errorCode : Option String)
  | turnStarted
  | turnQueued (planOnly : Bool)
  | turnFinished (status : TurnStatus) (errorCode : Option String)
  | resumeDegraded
  /-- An event that the adapter read from the output of the tool. -/
  | reported (kind : CodingTurn.EventKind)
deriving DecidableEq

structure CodingSessionEvent where
  sessionId : SessionId
  turnId : Option TurnId
  seq : Nat
  kind : SessionEventKind
deriving DecidableEq

structure Tables where
  sessions : Table SessionId CodingSession
  turns : Table TurnId CodingSessionTurn
  events : List CodingSessionEvent

namespace Tables

/-- `_next_seq`: one more than the greatest number, or one. -/
def nextSeq (seqs : List Nat) : Nat :=
  seqs.foldl max 0 + 1

def eventSeqs (db : Tables) (sid : SessionId) : List Nat :=
  (db.events.filter fun event => event.sessionId = sid).map CodingSessionEvent.seq

def turnSeqs (db : Tables) (sid : SessionId) : List Nat :=
  (db.turns.rows.filter fun e => e.2.sessionId = sid).map fun e => e.2.seq

def appendEvent (db : Tables) (sid : SessionId) (kind : SessionEventKind)
    (turnId : Option TurnId) : Tables :=
  { db with
    events := db.events ++
      [{ sessionId := sid, turnId := turnId, seq := nextSeq (db.eventSeqs sid), kind := kind }] }

/-- `add_turn`; `none` is an id that is in use. -/
def addTurn (db : Tables) (sid : SessionId) (tid : TurnId) (requestText : String)
    (status : TurnStatus) (now : Time) : Option Tables :=
  (db.turns.insert tid
    { sessionId := sid
      seq := nextSeq (db.turnSeqs sid)
      requestText := requestText
      status := status
      startedAt := if status = .running then some now else none
      resultSummary := none
      errorCode := none
      errorMessage := none }).map fun turns => { db with turns := turns }

end Tables

/-! ## Objects -/

/-- What a column holds after a write: the new value, if the object has changed it. -/
def changed {α : Type} [DecidableEq α] (old new row : α) : α :=
  if new = old then row else new

def CodingSession.flush (old new row : CodingSession) : CodingSession :=
  { row with
    status := changed old.status new.status row.status
    cliSessionRef := changed old.cliSessionRef new.cliSessionRef row.cliSessionRef
    pendingTurn := changed old.pendingTurn new.pendingTurn row.pendingTurn
    errorCode := changed old.errorCode new.errorCode row.errorCode
    errorMessage := changed old.errorMessage new.errorMessage row.errorMessage }

def CodingSessionTurn.flush (old new row : CodingSessionTurn) : CodingSessionTurn :=
  { row with
    status := changed old.status new.status row.status
    startedAt := changed old.startedAt new.startedAt row.startedAt
    resultSummary := changed old.resultSummary new.resultSummary row.resultSummary
    errorCode := changed old.errorCode new.errorCode row.errorCode
    errorMessage := changed old.errorMessage new.errorMessage row.errorMessage }

/-- A transaction on one session, with the object of the session that it works on. -/
structure Txn where
  db : Tables
  sid : SessionId
  session : CodingSession

namespace Txn

/-- The object gets new attributes, and the changed ones are written. -/
def assign (t : Txn) (session : CodingSession) : Txn :=
  { t with
    db := { t.db with sessions := t.db.sessions.modify t.sid (t.session.flush session) }
    session := session }

def appendEvent (t : Txn) (kind : SessionEventKind) (turnId : Option TurnId) : Txn :=
  { t with db := t.db.appendEvent t.sid kind turnId }

/-- `transition`; `none` is `CodingSessionStateError`. -/
def transition (t : Txn) (status : SessionStatus) (errorCode errorMessage : Option String) :
    Option Txn :=
  if status ∈ allowedTransitions t.session.status then
    some ((t.assign
      { t.session with
        status := status
        errorCode := errorCode.or t.session.errorCode
        errorMessage := errorMessage.or t.session.errorMessage }).appendEvent
          (.sessionStatus status errorCode) none)
  else none

/-- A new session becomes idle before its first turn. -/
def makeReady (t : Txn) : Option Txn :=
  if t.session.status = .pending then
    (t.transition .starting none none).bind fun t => t.transition .idle none none
  else some t

/-- The common part of `start_turn` and `queue_turn`: the session is marked as running,
and a turn is added. -/
def beginTurn (t : Txn) (tid : TurnId) (requestText : String) (status : TurnStatus) (now : Time) :
    Option Txn :=
  if t.session.status = .pending ∨ t.session.status = .idle then do
    let ready ← t.makeReady
    let running ← ready.transition .running none none
    let db ← running.db.addTurn t.sid tid requestText status now
    some { running with db := db }
  else none

def startTurn (t : Txn) (tid : TurnId) (requestText : String) (now : Time) : Option Txn :=
  (t.beginTurn tid requestText .running now).map fun t => t.appendEvent .turnStarted (some tid)

def queueTurn (t : Txn) (tid : TurnId) (requestText : String) (planOnly : Bool)
    (enqueueingRunId : Option String) (now : Time) : Option Txn :=
  (t.beginTurn tid requestText .pending now).map fun t =>
    (t.assign
      { t.session with
        pendingTurn :=
          some { id := tid, planOnly := planOnly, enqueueingRunId := enqueueingRunId } }).appendEvent
      (.turnQueued planOnly) (some tid)

def clearPendingTurn (t : Txn) (tid : TurnId) : Txn :=
  if (t.session.pendingTurn.map PendingTurn.id) = some tid then
    t.assign { t.session with pendingTurn := none }
  else t

/-- `CodingSessionRepository.finish_turn` on an object of the turn. -/
def closeTurn (t : Txn) (tid : TurnId) (turn : CodingSessionTurn) (status : TurnStatus)
    (resultSummary errorCode errorMessage : Option String) : Txn :=
  { t with
    db :=
      { t.db with
        turns := t.db.turns.modify tid (turn.flush
          { turn with
            status := status
            resultSummary := resultSummary
            errorCode := errorCode
            errorMessage := errorMessage }) } }

/-- `if cli_session_ref: session.cli_session_ref = cli_session_ref` -/
def noteCliSession (t : Txn) (cliSessionRef : Option String) : Txn :=
  if cliSessionRef.any (· ≠ "") then t.assign { t.session with cliSessionRef := cliSessionRef }
  else t

def finishTurn (t : Txn) (tid : TurnId) (turn : CodingSessionTurn) (status : TurnStatus)
    (resultSummary errorCode errorMessage cliSessionRef : Option String) : Option Txn :=
  (((((t.closeTurn tid turn status resultSummary errorCode errorMessage).clearPendingTurn
    tid).noteCliSession cliSessionRef).appendEvent (.turnFinished status errorCode)
      (some tid)).transition (if status = .completed then .idle else .failed) errorCode errorMessage)

/-- A session whose tool has lost its state starts anew. -/
def degradeResume (t : Txn) (stateMissing : Bool) : Txn :=
  if t.session.cliSessionRef.any (· ≠ "") ∧ stateMissing then
    (t.assign { t.session with cliSessionRef := none }).appendEvent .resumeDegraded none
  else t

def recordEvents (t : Txn) (tid : TurnId) (kinds : List CodingTurn.EventKind) : Txn :=
  kinds.foldl (fun t kind => t.appendEvent (.reported kind) (some tid)) t

end Txn

/-! ## Transactions -/

/-- `validate_session_scope` and the check of the owner, for the scope of a caller. -/
def scopeMatches (session : CodingSession) (caller : SessionScope) : Bool :=
  session.scope.uid == caller.uid &&
    (caller.conversationId.isNone || session.scope.conversationId == caller.conversationId) &&
    session.scope.projectId == caller.projectId &&
    session.scope.runtimeScopeId == caller.runtimeScopeId &&
    session.scope.workdirPath == caller.workdirPath

/-- `create_session`; `none` is an id that is in use. -/
def createSession (db : Tables) (sid : SessionId) (caller : SessionScope) (maxTurns : Nat) :
    Option Txn :=
  let session : CodingSession :=
    { scope := caller
      maxTurns := maxTurns
      status := .pending
      cliSessionRef := none
      pendingTurn := none
      errorCode := none
      errorMessage := none }
  (db.sessions.insert sid session).map fun sessions =>
    ({ db := { db with sessions := sessions }, sid := sid, session := session } : Txn).appendEvent
      (.sessionStatus .pending none) none

/-- The session that a call continues, if the object is in the scope of the caller and idle. -/
def continueSession (db : Tables) (sid : SessionId) (session : CodingSession)
    (caller : SessionScope) : Option Txn :=
  if scopeMatches session caller && session.status == .idle then
    some { db := db, sid := sid, session := session }
  else none

inductive TurnStart where
  | started (t : Txn) (turn : CodingSessionTurn)
  | overBudget (t : Txn)

/-- `run_turn` up to its first commit, once the sandbox is prepared; `none` is an
error. -/
def runTurn (t : Txn) (tid : TurnId) (task : String) (now : Time) : Option TurnStart :=
  let existingTurns := (t.db.turnSeqs t.sid).length
  if t.session.maxTurns ≠ 0 ∧ t.session.maxTurns ≤ existingTurns then
    (t.transition .failed (some "budget_exceeded")
      (some s!"coding session budget exceeded: max_turns={t.session.maxTurns}")).map .overBudget
  else (t.startTurn tid task now).bind fun t => (t.db.turns.get tid).map (.started t)

/-- What the tool and its sandbox answer. -/
structure CliRun where
  /-- The directory with the state of the tool is not there. -/
  stateMissing : Bool
  events : List CodingTurn.EventKind
  failed : Bool
  summary : String
  errorMessage : Option String
  sessionRef : Option String

/-- `_execute_turn_tail`, on the objects that were loaded before the turn. -/
def executeTail (t : Txn) (tid : TurnId) (turn : CodingSessionTurn) (run : CliRun)
    (cancelled : Bool) : Option Txn :=
  let recorded := (t.degradeResume run.stateMissing).recordEvents tid run.events
  if cancelled then
    ((recorded.closeTurn tid turn .cancelled (some run.summary) none none).appendEvent
      (.turnFinished .cancelled none) (some tid)).transition .cancelled none none
  else
    recorded.finishTurn tid turn (if run.failed then .failed else .completed) (some run.summary)
      (if run.failed then some "executor_error" else none) run.errorMessage run.sessionRef

def cancelQueuedTurn (t : Txn) (tid : TurnId) (turn : CodingSessionTurn) : Option Txn :=
  (((t.closeTurn tid turn .cancelled none (some "cancel_requested") none).clearPendingTurn
    tid).appendEvent (.turnFinished .cancelled none) (some tid)).transition .cancelled none none

/-- What `_fail_owned_coding_turn` and `reconcile_coding_turns` do to a turn whose row,
read under its lock, is running. -/
def failTurn (t : Txn) (tid : TurnId) (turn : CodingSessionTurn) (errorCode errorMessage : String) :
    Option Txn :=
  if turn.status = .running then
    let closed := ((t.closeTurn tid turn .failed none (some errorCode) (some errorMessage)).clearPendingTurn
      tid).appendEvent (.turnFinished .failed (some errorCode)) (some tid)
    if closed.session.status = .running then
      closed.transition .failed (some errorCode) (some errorMessage)
    else some closed
  else none

/-- `cancel`; `none` is an error. -/
def cancelSession (t : Txn) (uid : String) : Option Txn :=
  if t.session.scope.uid = uid ∧ t.session.status.isTerminal = false then
    t.transition .cancelled none none
  else none

/-- What `run_coding_turn_job` does to a pending turn of a terminal session. -/
def skipTurn (t : Txn) (tid : TurnId) (turn : CodingSessionTurn) : Txn :=
  (t.closeTurn tid turn .cancelled none (some "session_terminal") none).clearPendingTurn tid

inductive JobStart where
  | skipped (t : Txn)
  | started (t : Txn) (turn : CodingSessionTurn)

/-- `run_coding_turn_job` with the lease, up to its first commit, on objects that are read
under their locks; `none` is a turn that is not pending. -/
def startJob (t : Txn) (tid : TurnId) (turn : CodingSessionTurn) (now : Time) : Option JobStart :=
  if turn.status = .pending then
    if t.session.status.isTerminal then some (.skipped (skipTurn t tid turn))
    else
      let running : CodingSessionTurn := { turn with status := .running, startedAt := some now }
      some (.started
        { t with db := { t.db with turns := t.db.turns.modify tid (turn.flush running) } } running)
  else none

end Yuanlei.CodingSessions
