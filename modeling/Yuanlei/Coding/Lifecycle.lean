import Yuanlei.Lib.Transition
import Yuanlei.Coding.SessionWrites

/-!
# The life of coding sessions

Callers, workers and the recovery scan work on coding sessions in transactions of their own.  A
caller may have read a session before it starts; the worker of a turn keeps the session and the
turn as they were when the turn started, through a call that takes arbitrarily long.

Next to the tables the state has the cancel signals, the queued messages, and what every database
session has loaded.

Main results:

- `Numbered`: events and turns are numbered without a gap, in every run.
- `Consistent`: an idle session has no active turn and a running one has one.
- `coding_lifecycle`: in runs whose writes are fresh, sessions and turns move forward.
- `cancelled_session_becomes_idle`: the end of a turn revives a cancelled session.
-/

namespace Yuanlei.CodingSessions

/-! ## The system -/

/-- A message of `enqueue_coding_turn`. -/
structure Message where
  sessionId : SessionId
  turnId : TurnId
deriving DecidableEq

/-- What a database session has loaded: an object of a session and, while it executes a turn, one
of the turn; `job` is a turn that was delivered. -/
structure Loaded where
  sid : SessionId
  session : CodingSession
  turn : Option (TurnId × CodingSessionTurn)
  job : Bool

structure State where
  db : Tables
  signals : List SessionId
  messages : List Message
  loaded : Nat → Option Loaded

def State.empty : State where
  db := { sessions := Table.empty, turns := Table.empty, events := [] }
  signals := []
  messages := []
  loaded := fun _ => none

inductive Action where
  /-- A plain read of a session, as `status` makes before a turn or a cancellation. -/
  | read (w : Nat) (sid : SessionId)
  /-- `run_turn` on a session, up to its first commit. -/
  | runTurn (w : Nat) (caller : SessionScope) (sid : SessionId) (tid : TurnId) (task : String)
      (now : Time)
  /-- `run_turn` without a session. -/
  | runFirstTurn (w : Nat) (caller : SessionScope) (maxTurns : Nat) (sid : SessionId)
      (tid : TurnId) (task : String) (now : Time)
  /-- `queue_turn` on a session. -/
  | queueTurn (w : Nat) (caller : SessionScope) (sid : SessionId) (tid : TurnId) (task : String)
      (planOnly : Bool) (enqueueingRunId : Option String) (now : Time)
  /-- `queue_turn` without a session. -/
  | queueFirstTurn (caller : SessionScope) (maxTurns : Nat) (sid : SessionId) (tid : TurnId)
      (task : String) (planOnly : Bool) (enqueueingRunId : Option String) (now : Time)
  /-- The message of a pending turn, from its caller or from the recovery scan. -/
  | publish (tid : TurnId)
  /-- A delivery of a message; messages are delivered any number of times. -/
  | startJob (w : Nat) (message : Message) (now : Time)
  /-- The worker of a queued turn finds a cancel signal before it executes the turn. -/
  | cancelQueued (w : Nat)
  /-- The end of a turn; `owns` is the answer of the ownership guard, if there is one. -/
  | tail (w : Nat) (run : CliRun) (owns redisUp : Bool)
  /-- `_fail_owned_coding_turn` -/
  | failOwned (w : Nat) (errorCode errorMessage : String) (owns : Bool)
  | cancel (w : Nat) (uid : String) (sid : SessionId)
  /-- `publish_coding_cancel_signal` -/
  | signal (sid : SessionId)
  | signalExpires (sid : SessionId)
  /-- One turn of `reconcile_coding_turns`; `leaseActive` is the answer of
  `owns_active_prefix`. -/
  | reconcile (w : Nat) (tid : TurnId) (cutoff : Time) (leaseActive : Bool)
  /-- The end of a database session without a write. -/
  | close (w : Nat)

/-- The object of a session in a database session that executes no turn: the one it has loaded,
also under the lock, or else the row. -/
def State.objectOf (st : State) (w : Nat) (sid : SessionId) : Option CodingSession :=
  match st.loaded w with
  | none => st.db.sessions.get sid
  | some loaded => if loaded.sid = sid ∧ loaded.turn.isNone then some loaded.session else none

def State.setLoaded (st : State) (w : Nat) (loaded : Option Loaded) : State :=
  { st with loaded := Function.update st.loaded w loaded }

/-- The transaction is committed and the database session ends. -/
def State.commit (st : State) (w : Nat) (t : Txn) : State :=
  { st with db := t.db, loaded := Function.update st.loaded w none }

/-- The transaction is committed and the database session goes on to execute the turn. -/
def State.commitTurn (st : State) (w : Nat) (t : Txn) (tid : TurnId) (turn : CodingSessionTurn)
    (job : Bool) : State :=
  { st with
    db := t.db
    loaded := Function.update st.loaded w
      (some { sid := t.sid, session := t.session, turn := some (tid, turn), job := job }) }

def State.startTurn (st : State) (w : Nat) (tid : TurnId) (start : Option TurnStart) : State :=
  match start with
  | none => st.setLoaded w none
  | some (.overBudget t) => st.commit w t
  | some (.started t turn) => st.commitTurn w t tid turn false

/-- A transaction that ends its database session, also where it fails. -/
def State.conclude (st : State) (w : Nat) (t : Option Txn) : State :=
  match t with
  | some t => st.commit w t
  | none => st.setLoaded w none

def step (st : State) : Action → State
  | .read w sid =>
    match st.loaded w, st.db.sessions.get sid with
    | none, some row => st.setLoaded w (some { sid := sid, session := row, turn := none, job := false })
    | _, _ => st
  | .runTurn w caller sid tid task now =>
    match st.objectOf w sid with
    | none => st
    | some session =>
      st.startTurn w tid ((continueSession st.db sid session caller).bind fun t =>
        runTurn t tid task now)
  | .runFirstTurn w caller maxTurns sid tid task now =>
    match st.loaded w with
    | some _ => st
    | none =>
      st.startTurn w tid ((createSession st.db sid caller maxTurns).bind fun t =>
        runTurn t tid task now)
  | .queueTurn w caller sid tid task planOnly enqueueingRunId now =>
    match st.objectOf w sid with
    | none => st
    | some session =>
      st.conclude w ((continueSession st.db sid session caller).bind fun t =>
        t.queueTurn tid task planOnly enqueueingRunId now)
  | .queueFirstTurn caller maxTurns sid tid task planOnly enqueueingRunId now =>
    match (createSession st.db sid caller maxTurns).bind fun t =>
        t.queueTurn tid task planOnly enqueueingRunId now with
    | some t => { st with db := t.db }
    | none => st
  | .publish tid =>
    match st.db.turns.get tid with
    | some turn =>
      if turn.status = .pending then
        { st with messages := { sessionId := turn.sessionId, turnId := tid } :: st.messages }
      else st
    | none => st
  | .startJob w message now =>
    match st.loaded w, st.db.sessions.get message.sessionId, st.db.turns.get message.turnId with
    | none, some session, some turn =>
      if message ∈ st.messages then
        match CodingSessions.startJob { db := st.db, sid := message.sessionId, session := session }
            message.turnId turn now with
        | some (.skipped t) => st.commit w t
        | some (.started t turn) => st.commitTurn w t message.turnId turn true
        | none => st
      else st
    | _, _, _ => st
  | .cancelQueued w =>
    match st.loaded w with
    | some { sid := sid, session := session, turn := some (tid, turn), job := true } =>
      if sid ∈ st.signals then
        match cancelQueuedTurn { db := st.db, sid := sid, session := session } tid turn with
        | some t => { st.commit w t with signals := st.signals.filter (· ≠ sid) }
        | none => st.setLoaded w none
      else st
    | _ => st
  | .tail w run owns redisUp =>
    match st.loaded w with
    | some { sid := sid, session := session, turn := some (tid, turn), job := job } =>
      if job && !owns then st.setLoaded w none
      else
        match executeTail { db := st.db, sid := sid, session := session } tid turn run
            (redisUp && decide (sid ∈ st.signals)) with
        | some t =>
          { st.commit w t with
            signals := if redisUp then st.signals.filter (· ≠ sid) else st.signals }
        | none => st
    | _ => st
  | .failOwned w errorCode errorMessage owns =>
    match st.loaded w with
    | some { sid := sid, session := _, turn := some (tid, _), job := true } =>
      -- The rollback makes the objects expire, so both are read again.
      match st.db.sessions.get sid, st.db.turns.get tid with
      | some session, some turn =>
        if owns then
          st.conclude w (failTurn { db := st.db, sid := sid, session := session } tid turn
            errorCode errorMessage)
        else st.setLoaded w none
      | _, _ => st.setLoaded w none
    | _ => st
  | .cancel w uid sid =>
    match st.objectOf w sid with
    | some session =>
      st.conclude w (cancelSession { db := st.db, sid := sid, session := session } uid)
    | none => st
  | .signal sid => { st with signals := sid :: st.signals }
  | .signalExpires sid => { st with signals := st.signals.filter (· ≠ sid) }
  | .reconcile w tid cutoff leaseActive =>
    match st.db.turns.get tid with
    | some turn =>
      match st.objectOf w turn.sessionId with
      | some session =>
        if turn.startedAt.any (· < cutoff) && !leaseActive then
          st.conclude w (failTurn { db := st.db, sid := turn.sessionId, session := session } tid
            turn "coding_worker_lost" "编码 turn 执行超时且 worker 未能收敛结果")
        else st
      | none => st
    | none => st
  | .close w => st.setLoaded w none

/-! ## What holds of the tables -/

/-- The number of turns of a session that wait for a worker or have one. -/
def activeTurns (turns : Table TurnId CodingSessionTurn) (sid : SessionId) : Nat :=
  turns.total fun turn => if turn.sessionId = sid ∧ turn.status.isActive then 1 else 0

/-- How many active turns a session has. -/
def Balanced (status : SessionStatus) (active : Nat) : Prop :=
  (status = .running → active = 1) ∧ (status ≠ .running → status.isTerminal = false → active = 0)

structure Consistent (db : Tables) : Prop where
  known : ∀ tid turn, db.turns.get tid = some turn → (db.sessions.get turn.sessionId).isSome
  balanced : ∀ sid row, db.sessions.get sid = some row →
    Balanced row.status (activeTurns db.turns sid)

/-- What may become of the row of a turn: an ended turn does not change. -/
structure TurnMoved (row row' : CodingSessionTurn) : Prop where
  sessionId : row'.sessionId = row.sessionId
  seq : row'.seq = row.seq
  status : Relation.ReflTransGen TurnNext row.status row'.status
  ended : row.status.isActive = false → row' = row

namespace TurnMoved

theorem refl (row : CodingSessionTurn) : TurnMoved row row :=
  ⟨rfl, rfl, .refl, fun _ => rfl⟩

theorem trans {row row' row'' : CodingSessionTurn} (h : TurnMoved row row')
    (h' : TurnMoved row' row'') : TurnMoved row row'' := by
  refine ⟨h'.sessionId.trans h.sessionId, h'.seq.trans h.seq, h.status.trans h'.status,
    fun hended => ?_⟩
  have hsame := h.ended hended
  rw [← hsame] at hended
  rw [h'.ended hended, hsame]

end TurnMoved

/-- No row is lost, and every row moves forward. -/
structure Moved (db db' : Tables) : Prop where
  sessions : ∀ sid row, db.sessions.get sid = some row →
    ∃ row', db'.sessions.get sid = some row' ∧ SessionMoved row row'
  turns : ∀ tid row, db.turns.get tid = some row →
    ∃ row', db'.turns.get tid = some row' ∧ TurnMoved row row'

namespace Moved

theorem refl (db : Tables) : Moved db db :=
  ⟨fun _ row hget => ⟨row, hget, SessionMoved.refl row⟩,
    fun _ row hget => ⟨row, hget, TurnMoved.refl row⟩⟩

theorem trans {db db' db'' : Tables} (h : Moved db db') (h' : Moved db' db'') : Moved db db'' := by
  constructor
  · intro sid row hget
    obtain ⟨row', hget', hmoved⟩ := h.sessions sid row hget
    obtain ⟨row'', hget'', hmoved'⟩ := h'.sessions sid row' hget'
    exact ⟨row'', hget'', hmoved.trans hmoved'⟩
  · intro tid row hget
    obtain ⟨row', hget', hmoved⟩ := h.turns tid row hget
    obtain ⟨row'', hget'', hmoved'⟩ := h'.turns tid row' hget'
    exact ⟨row'', hget'', hmoved.trans hmoved'⟩

end Moved

/-! ## What a transaction keeps -/

/-- The object of the transaction is one of a row and has its status. -/
def Synced (t : Txn) : Prop :=
  ∃ row, t.db.sessions.get t.sid = some row ∧ row.status = t.session.status

/-- What is left to show of a transaction once its effect on the sessions is known. -/
structure Kept (db db' : Tables) : Prop where
  consistent : Consistent db'
  moved : Moved db db'

variable {db db' : Tables}

theorem Kept.trans {db'' : Tables} (h : Kept db db') (h' : Kept db' db'') : Kept db db'' :=
  ⟨h'.consistent, h.moved.trans h'.moved⟩

section Transactions

variable {t t' : Txn} {tid : TurnId}

section

variable (heffect : Effect t t')
include heffect

section

variable (hsynced : Synced t)
include hsynced

/-- The sessions after a transaction. -/
theorem sessions_moved :
    ∀ sid row, t.db.sessions.get sid = some row →
      ∃ row', t'.db.sessions.get sid = some row' ∧ SessionMoved row row' := by
  obtain ⟨row₀, hget₀, hstatus⟩ := hsynced
  intro sid row hget
  by_cases hsid : sid = t.sid
  · subst hsid
    rw [hget₀, Option.some.injEq] at hget
    subst hget
    obtain ⟨row', hget', -, hmoved⟩ := heffect.row row₀ hget₀ hstatus
    exact ⟨row', hget', hmoved⟩
  · exact ⟨row, by rw [heffect.others sid hsid, hget], SessionMoved.refl row⟩

theorem balanced_of_effect (hconsistent : Consistent t.db)
    (hothers : ∀ sid, sid ≠ t.sid → activeTurns t'.db.turns sid = activeTurns t.db.turns sid)
    (hself : Balanced t'.session.status (activeTurns t'.db.turns t.sid)) :
    ∀ sid row, t'.db.sessions.get sid = some row →
      Balanced row.status (activeTurns t'.db.turns sid) := by
  obtain ⟨row₀, hget₀, hstatus⟩ := hsynced
  intro sid row hget
  by_cases hsid : sid = t.sid
  · subst hsid
    obtain ⟨row', hget', hstatus', -⟩ := heffect.row row₀ hget₀ hstatus
    rw [hget, Option.some.injEq] at hget'
    subst hget'
    rwa [hstatus']
  · rw [hothers sid hsid]
    rw [heffect.others sid hsid] at hget
    exact hconsistent.balanced sid row hget

theorem kept_of_ends (hconsistent : Consistent t.db) (h : Ends t t') : Kept t.db t'.db := by
  have hsessions := sessions_moved heffect hsynced
  refine ⟨⟨?_, ?_⟩, hsessions, ?_⟩
  · intro tid turn hget
    rw [h.turns] at hget
    obtain ⟨row, hrow⟩ := Option.isSome_iff_exists.mp (hconsistent.known tid turn hget)
    obtain ⟨row', hrow', -⟩ := hsessions _ row hrow
    simp [hrow']
  · apply balanced_of_effect heffect hsynced hconsistent
    · intro sid _
      rw [h.turns]
    · constructor
      · intro hrunning
        have hterminal := h.session
        rw [hrunning] at hterminal
        cases hterminal
      · intro _ hopen
        rw [h.session] at hopen
        cases hopen
  · intro tid row hget
    exact ⟨row, by rw [h.turns, hget], TurnMoved.refl row⟩

theorem kept_of_opens (hconsistent : Consistent t.db) (h : Opens t t' tid) : Kept t.db t'.db := by
  obtain ⟨turn, hinsert, hsession, hactive⟩ := h.turns
  have hsessions := sessions_moved heffect hsynced
  obtain ⟨hfresh, hget'⟩ := Table.get_of_insert hinsert
  have hcount : ∀ sid, activeTurns t'.db.turns sid =
      activeTurns t.db.turns sid + if t.sid = sid then 1 else 0 := by
    intro sid
    rw [activeTurns, Table.total_of_insert hinsert, hsession]
    simp [activeTurns, hactive]
  refine ⟨⟨?_, ?_⟩, hsessions, ?_⟩
  · intro tid' turn' hturn'
    rw [hget' tid'] at hturn'
    split at hturn'
    · cases hturn'
      obtain ⟨row₀, hget₀, -⟩ := hsynced
      obtain ⟨row', hrow', -⟩ := hsessions _ row₀ hget₀
      rw [hsession]
      simp [hrow']
    · obtain ⟨row, hrow⟩ := Option.isSome_iff_exists.mp (hconsistent.known tid' turn' hturn')
      obtain ⟨row', hrow', -⟩ := hsessions _ row hrow
      simp [hrow']
  · apply balanced_of_effect heffect hsynced hconsistent
    · intro sid hsid
      rw [hcount sid, if_neg (Ne.symm hsid), Nat.add_zero]
    · obtain ⟨row₀, hget₀, hstatus⟩ := hsynced
      have hbalanced := (hconsistent.balanced t.sid row₀ hget₀).2
      rw [hstatus] at hbalanced
      have hzero : activeTurns t.db.turns t.sid = 0 := by
        rcases h.before with hpending | hidle
        · exact hbalanced (by simp [hpending]) (by rw [hpending]; rfl)
        · exact hbalanced (by simp [hidle]) (by rw [hidle]; rfl)
      rw [h.after, hcount t.sid, hzero]
      exact ⟨by simp, by simp⟩
  · intro tid' row hrow
    refine ⟨row, ?_, TurnMoved.refl row⟩
    rw [hget' tid', if_neg, hrow]
    intro heq
    rw [heq, hfresh] at hrow
    cases hrow

end

end

/-- The row of the turn that a transaction closes: it has the status of the object. -/
def TurnSynced (t : Txn) (tid : TurnId) (turn : CodingSessionTurn) : Prop :=
  ∃ row, t.db.turns.get tid = some row ∧ row.status = turn.status ∧ row.sessionId = t.sid

variable {turn row new : CodingSessionTurn}

theorem turnMoved_flush (hrow : row.status = turn.status)
    (hnext : TurnNext turn.status new.status) :
    (turn.flush new row).status = new.status ∧ TurnMoved row (turn.flush new row) := by
  have hstatus : (turn.flush new row).status = new.status := by
    simp [CodingSessionTurn.flush, changed, hnext.ne]
  refine ⟨hstatus, rfl, rfl, ?_, ?_⟩
  · rw [hstatus, hrow]
    exact .single hnext
  · intro hended
    rw [hrow, hnext.isActive] at hended
    cases hended

theorem turns_moved {turns : Table TurnId CodingSessionTurn}
    (hget : turns.get tid = some row) (hrow : row.status = turn.status)
    (hnext : TurnNext turn.status new.status) :
    ∀ tid' row', turns.get tid' = some row' →
      ∃ row'', (turns.modify tid (turn.flush new)).get tid' = some row'' ∧ TurnMoved row' row'' := by
  intro tid' row' hget'
  by_cases htid : tid' = tid
  · subst htid
    rw [hget, Option.some.injEq] at hget'
    subst hget'
    exact ⟨_, by simp [hget], (turnMoved_flush hrow hnext).2⟩
  · exact ⟨row', by simp [htid, hget'], TurnMoved.refl row'⟩

theorem known_modify (hconsistent : Consistent t.db)
    (hsessions : ∀ sid row, t.db.sessions.get sid = some row →
      ∃ row', t'.db.sessions.get sid = some row' ∧ SessionMoved row row')
    (hturns : t'.db.turns = t.db.turns.modify tid (turn.flush new)) :
    ∀ tid' turn', t'.db.turns.get tid' = some turn' →
      (t'.db.sessions.get turn'.sessionId).isSome := by
  intro tid' turn' hget
  rw [hturns, Table.get_modify] at hget
  have hbefore : ∃ old, t.db.turns.get tid' = some old ∧ turn'.sessionId = old.sessionId := by
    split at hget
    · obtain ⟨old, hold, rfl⟩ := Option.map_eq_some_iff.mp hget
      exact ⟨old, hold, rfl⟩
    · exact ⟨turn', hget, rfl⟩
  obtain ⟨old, hold, hsame⟩ := hbefore
  obtain ⟨row, hrow⟩ := Option.isSome_iff_exists.mp (hconsistent.known tid' old hold)
  obtain ⟨row', hrow', -⟩ := hsessions _ row hrow
  rw [hsame, hrow']
  rfl

theorem kept_of_closes (heffect : Effect t t') (hsynced : Synced t)
    (hturn : TurnSynced t tid turn) (hconsistent : Consistent t.db) (h : Closes t t' tid turn) :
    Kept t.db t'.db := by
  obtain ⟨new, hturns, hinactive, hold⟩ := h.turns
  obtain ⟨row, hget, hrow, hsession⟩ := hturn
  have hsessions := sessions_moved heffect hsynced
  have hnext : TurnNext turn.status new.status := by
    rcases hold with hrunning | ⟨hpending, hcancelled⟩
    · rw [hrunning]
      exact turnNext_running hinactive
    · rw [hpending, hcancelled]
      exact .skipped
  have hactive : row.status.isActive = true := by
    rw [hrow, hnext.isActive]
  have hended : (turn.flush new row).status.isActive = false := by
    rw [(turnMoved_flush hrow hnext).1, hinactive]
  have hcount : ∀ sid, activeTurns t'.db.turns sid + (if t.sid = sid then 1 else 0) =
      activeTurns t.db.turns sid := by
    intro sid
    have htotal := t.db.turns.total_modify hget (turn.flush new)
      fun turn => if turn.sessionId = sid ∧ turn.status.isActive then 1 else 0
    simp only [hended, hactive, hsession, and_true, Bool.false_eq_true, and_false, if_false] at htotal
    rw [activeTurns, hturns, htotal]
    rfl
  refine ⟨⟨known_modify hconsistent hsessions hturns, ?_⟩, hsessions, ?_⟩
  · apply balanced_of_effect heffect hsynced hconsistent
    · intro sid hsid
      have hsame := hcount sid
      rwa [if_neg (Ne.symm hsid), Nat.add_zero] at hsame
    · obtain ⟨row₀, hget₀, hstatus⟩ := hsynced
      have hself := hcount t.sid
      rw [if_pos rfl] at hself
      obtain ⟨hone, hzero⟩ := hconsistent.balanced t.sid row₀ hget₀
      refine ⟨fun hrunning => absurd hrunning h.session, fun _ hopen => ?_⟩
      by_cases hrunning : row₀.status = .running
      · have hcounted := hone hrunning
        omega
      · cases hterminal : row₀.status.isTerminal with
        | false =>
          have hnone := hzero hrunning hterminal
          omega
        | true =>
          obtain ⟨row', -, hstatus', hmoved⟩ := heffect.row row₀ hget₀ hstatus
          have hsettled := congrArg CodingSession.status (hmoved.terminal hterminal)
          simp only [CodingSession.settled] at hsettled
          rw [← hstatus', hsettled, hterminal] at hopen
          cases hopen
  · intro tid' row' hget'
    rw [hturns]
    exact turns_moved hget hrow hnext tid' row' hget'

theorem kept_of_startJob {turn' : CodingSessionTurn} {now : Time}
    (hget : t.db.turns.get tid = some turn) (hsession : turn.sessionId = t.sid)
    (hnumbered : Numbered t.db) (hconsistent : Consistent t.db)
    (h : startJob t tid turn now = some (.started t' turn')) :
    t'.sid = t.sid ∧ Numbered t'.db ∧ Kept t.db t'.db ∧ turn'.status = .running ∧
      ∃ row, t'.db.turns.get tid = some row ∧ row.sessionId = t.sid := by
  unfold startJob at h
  split at h
  · next hpending =>
    split at h
    · cases h
    · cases h
      have hnext : TurnNext turn.status { turn with status := .running, startedAt := some now }.status := by
        rw [hpending]
        exact .taken
      have hmoved := turnMoved_flush (rfl : turn.status = turn.status) hnext
      have hgot : (t.db.turns.modify tid (turn.flush
          { turn with status := .running, startedAt := some now })).get tid =
            some (turn.flush { turn with status := .running, startedAt := some now } turn) := by
        rw [Table.get_modify_self, hget, Option.map_some]
      have hcount : ∀ sid, activeTurns (t.db.turns.modify tid (turn.flush
          { turn with status := .running, startedAt := some now })) sid =
            activeTurns t.db.turns sid := by
        intro sid
        have htotal := t.db.turns.total_modify hget
          (turn.flush { turn with status := .running, startedAt := some now })
          fun turn => if turn.sessionId = sid ∧ turn.status.isActive then 1 else 0
        rw [hmoved.1, hmoved.2.sessionId, hpending] at htotal
        simp only [TurnStatus.isActive, and_true] at htotal
        unfold activeTurns
        simp only [TurnStatus.isActive] at htotal ⊢
        omega
      refine ⟨rfl, hnumbered.modifyTurn tid fun _ => ⟨rfl, rfl⟩, ⟨⟨?_, ?_⟩, ?_, ?_⟩, rfl, ?_⟩
      · have hsessions : ∀ sid row, t.db.sessions.get sid = some row →
            ∃ row', t.db.sessions.get sid = some row' ∧ SessionMoved row row' :=
          fun sid row hrow => ⟨row, hrow, SessionMoved.refl row⟩
        exact known_modify hconsistent hsessions rfl
      · intro sid row hrow
        have hold := hconsistent.balanced sid row hrow
        rwa [← hcount sid] at hold
      · exact fun sid row hrow => ⟨row, hrow, SessionMoved.refl row⟩
      · exact turns_moved hget rfl hnext
      · exact ⟨_, hgot, hsession⟩
  · cases h

theorem createSession_spec {db : Tables} {sid : SessionId} {caller : SessionScope} {maxTurns : Nat}
    (hnumbered : Numbered db) (hconsistent : Consistent db)
    (h : createSession db sid caller maxTurns = some t) :
    t.sid = sid ∧ Synced t ∧ Numbered t.db ∧ Kept db t.db := by
  obtain ⟨sessions, hinsert, rfl⟩ := Option.map_eq_some_iff.mp h
  obtain ⟨hfresh, hget⟩ := Table.get_of_insert hinsert
  have hold : ∀ sid' row, db.sessions.get sid' = some row → sessions.get sid' = some row := by
    intro sid' row hrow
    rw [hget sid', if_neg, hrow]
    intro heq
    rw [heq, hfresh] at hrow
    cases hrow
  have hnone : activeTurns db.turns sid = 0 := by
    apply Table.total_eq_zero
    intro tid turn hturn
    rw [if_neg]
    intro hcase
    have hknown := hconsistent.known tid turn hturn
    rw [hcase.1, hfresh] at hknown
    cases hknown
  refine ⟨rfl, ⟨_, (hget sid).trans (if_pos rfl), rfl⟩, ?_, ⟨⟨?_, ?_⟩, ?_, ?_⟩⟩
  · exact (hnumbered.withSessions sessions).appendEvent sid _ _
  · intro tid turn hturn
    obtain ⟨row, hrow⟩ := Option.isSome_iff_exists.mp (hconsistent.known tid turn hturn)
    exact Option.isSome_iff_exists.mpr ⟨row, hold _ row hrow⟩
  · intro sid' row hrow
    have hcase := (hget sid').symm.trans hrow
    split at hcase
    · next heq =>
      cases hcase
      refine ⟨fun hrunning => (by cases hrunning), fun _ _ => ?_⟩
      rw [heq]
      exact hnone
    · exact hconsistent.balanced sid' row hcase
  · exact fun sid' row hrow => ⟨row, hold sid' row hrow, SessionMoved.refl row⟩
  · exact fun tid row hrow => ⟨row, hrow, TurnMoved.refl row⟩

end Transactions

/-! ## The condition -/

/-- The row of the session has the status of the object. -/
def State.sessionFresh (st : State) (sid : SessionId) (session : CodingSession) : Bool :=
  (st.db.sessions.get sid).map CodingSession.status == some session.status

/-- The row of the turn has the status of the object. -/
def State.turnFresh (st : State) (tid : TurnId) (turn : CodingSessionTurn) : Bool :=
  (st.db.turns.get tid).map CodingSessionTurn.status == some turn.status

/-- The session and the turn of a database session that executes a turn. -/
def State.workerFresh (st : State) (w : Nat) : Bool :=
  (st.loaded w).all fun loaded =>
    st.sessionFresh loaded.sid loaded.session && loaded.turn.all fun e => st.turnFresh e.1 e.2

/-- What a transaction has loaded before still has the status of the rows. -/
def Fresh (st : State) : Action → Bool
  | .runTurn w _ sid _ _ _ => (st.objectOf w sid).all (st.sessionFresh sid)
  | .queueTurn w _ sid _ _ _ _ _ => (st.objectOf w sid).all (st.sessionFresh sid)
  | .cancel w _ sid => (st.objectOf w sid).all (st.sessionFresh sid)
  | .reconcile w tid _ _ =>
    (st.db.turns.get tid).all fun turn =>
      (st.objectOf w turn.sessionId).all (st.sessionFresh turn.sessionId)
  | .cancelQueued w => st.workerFresh w
  | .tail w _ _ _ => st.workerFresh w
  | _ => true

/-! ## The invariant -/

/-- What is loaded belongs to rows that exist. -/
structure LoadedOk (db : Tables) (loaded : Loaded) : Prop where
  session : (db.sessions.get loaded.sid).isSome
  turn : ∀ tid turn, loaded.turn = some (tid, turn) → turn.status = .running ∧
    ∃ row, db.turns.get tid = some row ∧ row.sessionId = loaded.sid

theorem LoadedOk.moved {loaded : Loaded} (h : LoadedOk db loaded)
    (hmoved : Moved db db') : LoadedOk db' loaded := by
  constructor
  · obtain ⟨row, hrow⟩ := Option.isSome_iff_exists.mp h.session
    obtain ⟨row', hrow', -⟩ := hmoved.sessions _ row hrow
    simp [hrow']
  · intro tid turn hturn
    obtain ⟨hrunning, row, hrow, hsession⟩ := h.turn tid turn hturn
    obtain ⟨row', hrow', hturnMoved⟩ := hmoved.turns tid row hrow
    exact ⟨hrunning, row', hrow', hturnMoved.sessionId.trans hsession⟩

structure Inv (st : State) : Prop where
  numbered : Numbered st.db
  consistent : Consistent st.db
  messages : ∀ m ∈ st.messages, ∃ turn, st.db.turns.get m.turnId = some turn ∧
    turn.sessionId = m.sessionId
  loaded : ∀ w loaded, st.loaded w = some loaded → LoadedOk st.db loaded

theorem inv_empty : Inv State.empty := by
  refine ⟨⟨?_, ?_⟩, ⟨?_, ?_⟩, ?_, ?_⟩
  · intro sid
    rfl
  · intro sid
    rfl
  · intro tid turn hturn
    cases hturn
  · intro sid row hrow
    cases hrow
  · intro m hm
    cases hm
  · intro w loaded hloaded
    cases hloaded

/-- A step that keeps the invariant and moves the rows forward. -/
def Good (st st' : State) : Prop :=
  Inv st' ∧ Moved st.db st'.db

section Steps

variable {st : State} (hinv : Inv st)

include hinv

theorem good_refl : Good st st :=
  ⟨hinv, Moved.refl st.db⟩

theorem good_setLoaded (w : Nat) {loaded : Option Loaded}
    (hloaded : ∀ l, loaded = some l → LoadedOk st.db l) : Good st (st.setLoaded w loaded) := by
  refine ⟨⟨hinv.numbered, hinv.consistent, hinv.messages, fun w' l hl => ?_⟩, Moved.refl st.db⟩
  simp only [State.setLoaded, Function.update_apply] at hl
  split at hl
  · exact hloaded l hl
  · exact hinv.loaded w' l hl

theorem good_close (w : Nat) : Good st (st.setLoaded w none) :=
  good_setLoaded hinv w fun _ hl => nomatch hl

variable {signals' : List SessionId}

theorem good_of_kept {db' : Tables} {loaded' : Nat → Option Loaded}
    (hnumbered : Numbered db') (hkept : Kept st.db db')
    (hloaded : ∀ w l, loaded' w = some l → st.loaded w = some l ∨ LoadedOk db' l) :
    Good st { db := db', signals := signals', messages := st.messages, loaded := loaded' } := by
  refine ⟨⟨hnumbered, hkept.consistent, ?_, ?_⟩, hkept.moved⟩
  · intro m hm
    obtain ⟨turn, hturn, hsession⟩ := hinv.messages m hm
    obtain ⟨turn', hturn', hmoved⟩ := hkept.moved.turns _ turn hturn
    exact ⟨turn', hturn', hmoved.sessionId.trans hsession⟩
  · intro w l hl
    rcases hloaded w l hl with hold | hnew
    · exact (hinv.loaded w l hold).moved hkept.moved
    · exact hnew

variable {t : Txn}

theorem good_commit (w : Nat) (hnumbered : Numbered t.db)
    (hkept : Kept st.db t.db) : Good st { st.commit w t with signals := signals' } := by
  apply good_of_kept hinv hnumbered hkept
  intro w' l hl
  simp only [State.commit, Function.update_apply] at hl
  split at hl
  · cases hl
  · exact Or.inl hl

variable {tid : TurnId} {turn : CodingSessionTurn} {job : Bool}

theorem good_commitTurn (w : Nat) (hnumbered : Numbered t.db) (hkept : Kept st.db t.db)
    (hsession : (t.db.sessions.get t.sid).isSome) (hrunning : turn.status = .running)
    (hrow : ∃ row, t.db.turns.get tid = some row ∧ row.sessionId = t.sid) :
    Good st (st.commitTurn w t tid turn job) := by
  apply good_of_kept hinv hnumbered hkept
  intro w' l hl
  simp only [Function.update_apply] at hl
  split at hl
  · cases hl
    refine Or.inr ⟨hsession, fun tid' turn' heq => ?_⟩
    cases heq
    exact ⟨hrunning, hrow⟩
  · exact Or.inl hl

theorem kept_refl : Kept st.db st.db :=
  ⟨hinv.consistent, Moved.refl st.db⟩

variable {task : String} {now : Time}

theorem good_startTurn (w : Nat) (hkept : Kept st.db t.db) (hnumbered : Numbered t.db)
    (hsynced : Synced t) :
    Good st (st.startTurn w tid (runTurn t tid task now)) := by
  cases hstart : runTurn t tid task now with
  | none => exact good_close hinv w
  | some start =>
    cases start with
    | overBudget t' =>
      obtain ⟨heffect, hends⟩ := runTurn_overBudget hstart
      have hdone := hkept.trans (kept_of_ends heffect hsynced hkept.consistent hends)
      exact good_commit hinv w (heffect.numbers hnumbered) hdone
    | started t' turn =>
      obtain ⟨heffect, hopens, hget, hrunning, hsession⟩ := runTurn_started hstart
      have hopened := kept_of_opens heffect hsynced hkept.consistent hopens
      obtain ⟨row, hrow, -⟩ := hsynced
      obtain ⟨row', hrow', -⟩ := hopened.moved.sessions _ row hrow
      apply good_commitTurn hinv w (heffect.numbers hnumbered) (hkept.trans hopened)
      · rw [heffect.sid, hrow']
        rfl
      · exact hrunning
      · exact ⟨turn, hget, by rw [hsession, heffect.sid]⟩

variable {sid : SessionId} {session : CodingSession}

omit hinv in
theorem synced_of_fresh (h : st.sessionFresh sid session = true) :
    Synced { db := st.db, sid := sid, session := session } := by
  rw [State.sessionFresh, beq_iff_eq, Option.map_eq_some_iff] at h
  obtain ⟨row, hget, hstatus⟩ := h
  exact ⟨row, hget, hstatus⟩

/-- The end of a transaction that started from the tables as they are. -/
theorem good_conclude (w : Nat) (t : Txn) {result : Option Txn} (hdb : t.db = st.db)
    (h : ∀ t', result = some t' → Effect t t' ∧ Kept t.db t'.db) :
    Good st (st.conclude w result) := by
  cases hresult : result with
  | none => exact good_close hinv w
  | some t' =>
    obtain ⟨heffect, hkept⟩ := h t' hresult
    rw [hdb] at hkept
    exact good_commit hinv w (heffect.numbers (hdb ▸ hinv.numbered)) hkept

variable {caller : SessionScope}

omit hinv in
theorem continueSession_eq (h : continueSession st.db sid session caller = some t) :
    t = { db := st.db, sid := sid, session := session } := by
  unfold continueSession at h
  split at h
  · exact (Option.some.inj h).symm
  · cases h

variable {w : Nat}

theorem good_runTurn (hfresh : Fresh st (.runTurn w caller sid tid task now) = true) :
    Good st (step st (.runTurn w caller sid tid task now)) := by
  simp only [Fresh, step] at hfresh ⊢
  split
  · exact good_refl hinv
  · next session hobject =>
    rw [hobject] at hfresh
    cases hcontinue : continueSession st.db sid session caller with
    | none => exact good_close hinv w
    | some t =>
      have ht := continueSession_eq hcontinue
      subst ht
      exact good_startTurn hinv w (kept_refl hinv) hinv.numbered (synced_of_fresh hfresh)

theorem good_runFirstTurn (w : Nat) (caller : SessionScope) (maxTurns : Nat) (sid : SessionId)
    (tid : TurnId) (task : String) (now : Time) :
    Good st (step st (.runFirstTurn w caller maxTurns sid tid task now)) := by
  simp only [step]
  cases hloaded : st.loaded w with
  | some l => exact good_refl hinv
  | none =>
    cases hcreate : createSession st.db sid caller maxTurns with
    | none => exact good_close hinv w
    | some t =>
      obtain ⟨-, hsynced, hnumbered, hkept⟩ :=
        createSession_spec hinv.numbered hinv.consistent hcreate
      exact good_startTurn hinv w hkept hnumbered hsynced

theorem good_queueTurn {planOnly : Bool} {enqueueingRunId : Option String}
    (hfresh : Fresh st (.queueTurn w caller sid tid task planOnly enqueueingRunId now) = true) :
    Good st (step st (.queueTurn w caller sid tid task planOnly enqueueingRunId now)) := by
  simp only [Fresh, step] at hfresh ⊢
  split
  · exact good_refl hinv
  · next session hobject =>
    rw [hobject] at hfresh
    cases hcontinue : continueSession st.db sid session caller with
    | none => exact good_close hinv w
    | some t =>
      have ht := continueSession_eq hcontinue
      subst ht
      refine good_conclude hinv w { db := st.db, sid := sid, session := session } rfl
        fun t' ht' => ?_
      exact ⟨Effect.queueTurn ht', kept_of_opens (Effect.queueTurn ht')
        (synced_of_fresh hfresh) hinv.consistent (queueTurn_spec ht')⟩

theorem good_queueFirstTurn (caller : SessionScope) (maxTurns : Nat) (sid : SessionId)
    (tid : TurnId) (task : String) (planOnly : Bool) (enqueueingRunId : Option String) (now : Time) :
    Good st (step st (.queueFirstTurn caller maxTurns sid tid task planOnly enqueueingRunId now)) := by
  simp only [step]
  split
  · next t' hqueue =>
    obtain ⟨t, hcreate, hqueued⟩ := Option.bind_eq_some_iff.mp hqueue
    obtain ⟨-, hsynced, hnumbered, hkept⟩ :=
      createSession_spec hinv.numbered hinv.consistent hcreate
    have heffect := Effect.queueTurn hqueued
    have hopened := kept_of_opens heffect hsynced hkept.consistent (queueTurn_spec hqueued)
    exact good_of_kept hinv (heffect.numbers hnumbered) (hkept.trans hopened)
      fun w l hl => Or.inl hl
  · exact good_refl hinv

theorem good_publish (tid : TurnId) : Good st (step st (.publish tid)) := by
  simp only [step]
  split
  · next turn hget =>
    split
    · refine ⟨⟨hinv.numbered, hinv.consistent, fun m hm => ?_, hinv.loaded⟩, Moved.refl st.db⟩
      rcases List.mem_cons.mp hm with heq | hold
      · subst heq
        exact ⟨turn, hget, rfl⟩
      · exact hinv.messages m hold
    · exact good_refl hinv
  · exact good_refl hinv

theorem good_startJob (w : Nat) (message : Message) (now : Time) :
    Good st (step st (.startJob w message now)) := by
  simp only [step]
  split
  · next session turn hloaded hsession hturn =>
    split
    · next hmessage =>
      obtain ⟨row, hrow, hrowSession⟩ := hinv.messages message hmessage
      rw [hturn, Option.some.injEq] at hrow
      subst hrow
      have hsynced : Synced { db := st.db, sid := message.sessionId, session := session } :=
        ⟨session, hsession, rfl⟩
      split
      · next t' hskipped =>
        unfold startJob at hskipped
        split at hskipped
        · next hpending =>
          split at hskipped
          · next hterminal =>
            cases hskipped
            have heffect := Effect.skipTurn
              { db := st.db, sid := message.sessionId, session := session } message.turnId turn
            have hclosed := kept_of_closes heffect hsynced ⟨turn, hturn, rfl, hrowSession⟩
              hinv.consistent (skipTurn_spec hterminal hpending)
            exact good_commit hinv w (heffect.numbers hinv.numbered) hclosed
          · cases hskipped
        · cases hskipped
      · next t' turn' hstarted =>
        obtain ⟨hsid, hnumbered, hkept, hrunning, hturnRow⟩ :=
          kept_of_startJob hturn hrowSession hinv.numbered hinv.consistent hstarted
        obtain ⟨session', hsession', -⟩ := hkept.moved.sessions _ session hsession
        apply good_commitTurn hinv w hnumbered hkept
        · rw [hsid, hsession']
          rfl
        · exact hrunning
        · rw [hsid]
          exact hturnRow
      · exact good_refl hinv
    · exact good_refl hinv
  · exact good_refl hinv

/-- What the database session of a turn has loaded, in a fresh state. -/
theorem worker_synced (hloaded : st.loaded w =
      some { sid := sid, session := session, turn := some (tid, turn), job := job })
    (hfresh : st.workerFresh w = true) :
    Synced { db := st.db, sid := sid, session := session } ∧
      TurnSynced { db := st.db, sid := sid, session := session } tid turn ∧
      turn.status = .running := by
  obtain ⟨hrunning, row, hget, hsession⟩ := (hinv.loaded w _ hloaded).turn tid turn rfl
  rw [State.workerFresh, hloaded] at hfresh
  simp only [Option.all_some, Bool.and_eq_true] at hfresh
  have hturn := hfresh.2
  rw [State.turnFresh, beq_iff_eq, hget, Option.map_some, Option.some.injEq] at hturn
  exact ⟨synced_of_fresh hfresh.1, ⟨row, hget, hturn, hsession⟩, hrunning⟩

theorem good_cancelQueued (hfresh : Fresh st (.cancelQueued w) = true) :
    Good st (step st (.cancelQueued w)) := by
  simp only [Fresh, step] at hfresh ⊢
  split
  · next sid session tid turn hloaded =>
    obtain ⟨hsynced, hturn, hrunning⟩ := worker_synced hinv hloaded hfresh
    split
    · split
      · next t hcancelled =>
        have heffect := Effect.cancelQueuedTurn hcancelled
        have hclosed := kept_of_closes heffect hsynced hturn hinv.consistent
          (cancelQueuedTurn_spec hrunning hcancelled)
        exact good_commit hinv w (heffect.numbers hinv.numbered) hclosed
      · exact good_close hinv w
    · exact good_refl hinv
  · exact good_refl hinv

theorem good_tail {run : CliRun} {owns redisUp : Bool}
    (hfresh : Fresh st (.tail w run owns redisUp) = true) :
    Good st (step st (.tail w run owns redisUp)) := by
  simp only [Fresh, step] at hfresh ⊢
  split
  · next sid session tid turn job hloaded =>
    obtain ⟨hsynced, hturn, hrunning⟩ := worker_synced hinv hloaded hfresh
    split
    · exact good_close hinv w
    · split
      · next t htail =>
        have heffect := Effect.executeTail htail
        have hclosed := kept_of_closes heffect hsynced hturn hinv.consistent
          (executeTail_spec hrunning htail)
        exact good_commit hinv w (heffect.numbers hinv.numbered) hclosed
      · exact good_refl hinv
  · exact good_refl hinv

theorem good_failOwned (w : Nat) (errorCode errorMessage : String) (owns : Bool) :
    Good st (step st (.failOwned w errorCode errorMessage owns)) := by
  simp only [step]
  split
  · next sid session₀ tid turn₀ hloaded =>
    obtain ⟨-, row, hget, hsession⟩ := (hinv.loaded w _ hloaded).turn tid turn₀ rfl
    split
    · next session turn hrow hturn =>
      rw [hget, Option.some.injEq] at hturn
      subst hturn
      split
      · refine good_conclude hinv w { db := st.db, sid := sid, session := session } rfl
          fun t' ht' => ?_
        exact ⟨Effect.failTurn ht', kept_of_closes (Effect.failTurn ht') ⟨session, hrow, rfl⟩
          ⟨row, hget, rfl, hsession⟩ hinv.consistent (failTurn_spec ht')⟩
      · exact good_close hinv w
    · exact good_close hinv w
  · exact good_refl hinv

theorem good_cancel {uid : String} (hfresh : Fresh st (.cancel w uid sid) = true) : Good st
    (step st (.cancel w uid sid)) := by
  simp only [Fresh, step] at hfresh ⊢
  split
  · next session hobject =>
    rw [hobject] at hfresh
    refine good_conclude hinv w { db := st.db, sid := sid, session := session } rfl fun t' ht' => ?_
    exact ⟨Effect.cancelSession ht', kept_of_ends (Effect.cancelSession ht')
      (synced_of_fresh hfresh) hinv.consistent (cancelSession_spec ht')⟩
  · exact good_refl hinv

theorem good_reconcile {cutoff : Time} {leaseActive : Bool}
    (hfresh : Fresh st (.reconcile w tid cutoff leaseActive) = true) :
    Good st (step st (.reconcile w tid cutoff leaseActive)) := by
  simp only [Fresh, step] at hfresh ⊢
  split
  · next turn hturn =>
    rw [hturn] at hfresh
    split
    · next session hobject =>
      simp only [Option.all_some, hobject] at hfresh
      split
      · refine good_conclude hinv w { db := st.db, sid := turn.sessionId, session := session } rfl
          fun t' ht' => ?_
        exact ⟨Effect.failTurn ht', kept_of_closes (Effect.failTurn ht') (synced_of_fresh hfresh)
          ⟨turn, hturn, rfl, rfl⟩ hinv.consistent (failTurn_spec ht')⟩
      · exact good_refl hinv
    · exact good_refl hinv
  · exact good_refl hinv

theorem good_read (w : Nat) (sid : SessionId) : Good st (step st (.read w sid)) := by
  simp only [step]
  split
  · next row hloaded hrow =>
    apply good_setLoaded hinv w
    intro l hl
    cases hl
    refine ⟨by simp [hrow], fun tid turn hturn => ?_⟩
    cases hturn
  · exact good_refl hinv

theorem good_step (a : Action) (hfresh : Fresh st a = true) : Good st (step st a) := by
  cases a with
  | read w sid => exact good_read hinv w sid
  | runTurn w caller sid tid task now => exact good_runTurn hinv hfresh
  | runFirstTurn w caller maxTurns sid tid task now =>
    exact good_runFirstTurn hinv w caller maxTurns sid tid task now
  | queueTurn w caller sid tid task planOnly enqueueingRunId now =>
    exact good_queueTurn hinv hfresh
  | queueFirstTurn caller maxTurns sid tid task planOnly enqueueingRunId now =>
    exact good_queueFirstTurn hinv caller maxTurns sid tid task planOnly enqueueingRunId now
  | publish tid => exact good_publish hinv tid
  | startJob w message now => exact good_startJob hinv w message now
  | cancelQueued w => exact good_cancelQueued hinv hfresh
  | tail w run owns redisUp => exact good_tail hinv hfresh
  | failOwned w errorCode errorMessage owns => exact good_failOwned hinv w errorCode errorMessage owns
  | cancel w uid sid => exact good_cancel hinv hfresh
  | signal sid =>
    exact ⟨⟨hinv.numbered, hinv.consistent, hinv.messages, hinv.loaded⟩, Moved.refl st.db⟩
  | signalExpires sid =>
    exact ⟨⟨hinv.numbered, hinv.consistent, hinv.messages, hinv.loaded⟩, Moved.refl st.db⟩
  | reconcile w tid cutoff leaseActive => exact good_reconcile hinv hfresh
  | close w => exact good_close hinv w

end Steps

/-! ## Runs -/

theorem good_exec {st : State} (hinv : Inv st) {as : List Action}
    (h : Transition.Guarded step (fun st a => Fresh st a = true) st as) :
    Good st (Transition.exec step st as) := by
  refine Transition.exec_invariant_of_guarded step ?_ (good_refl hinv) h
  intro st' a hfresh hgood
  obtain ⟨hinv', hmoved⟩ := good_step hgood.1 a hfresh
  exact ⟨hinv', hgood.2.trans hmoved⟩

/-- In every run whose transactions write objects with the status of their rows, in every state:
events and turns of a session are numbered without gap, an idle session has no active turn and a
running one has one; and from there on, sessions move along the allowed transitions, turns move
from pending to running to their end, and what has ended does not change. -/
theorem coding_lifecycle (before after : List Action)
    (h : Transition.Guarded step (fun st a => Fresh st a = true) State.empty (before ++ after)) :
    Numbered (Transition.exec step State.empty before).db ∧
      Consistent (Transition.exec step State.empty before).db ∧
      Moved (Transition.exec step State.empty before).db
        (Transition.exec step State.empty (before ++ after)).db := by
  obtain ⟨hbefore, hafter⟩ := (Transition.guarded_append step State.empty before after).mp h
  have hgood := good_exec inv_empty hbefore
  rw [Transition.exec_append]
  exact ⟨hgood.1.numbered, hgood.1.consistent, (good_exec hgood.1 hafter).2⟩

def sampleScope : SessionScope :=
  { uid := "user-1", projectId := "project-1", runtimeScopeId := "scope-1", workdirPath := "work"
    conversationId := none }

def sampleRun : CliRun :=
  { stateMissing := false, events := [.outputDelta], failed := false, summary := "done"
    errorMessage := none, sessionRef := some "cli-1" }

/-- A first turn that runs and ends, and a queued second one that a worker ends twice. -/
def turnsRun : List Action :=
  [.runFirstTurn 0 sampleScope 0 "session-1" "turn-1" "task" 0, .tail 0 sampleRun true true,
    .read 1 "session-1", .queueTurn 1 sampleScope "session-1" "turn-2" "more" false none 1,
    .publish "turn-2", .startJob 2 ⟨"session-1", "turn-2"⟩ 2, .startJob 3 ⟨"session-1", "turn-2"⟩ 3,
    .tail 2 sampleRun true true]

theorem coding_lifecycle_turnsRun : Numbered (Transition.exec step State.empty turnsRun).db ∧
      Consistent (Transition.exec step State.empty turnsRun).db ∧
      Moved (Transition.exec step State.empty turnsRun).db
        (Transition.exec step State.empty (turnsRun ++ [.cancel 4 "user-1" "session-1"])).db :=
  coding_lifecycle turnsRun [.cancel 4 "user-1" "session-1"] (by decide +kernel)

/-- The first turn of a session runs, its session is cancelled, and the turn ends. -/
def cancelledRun : List Action :=
  [.runFirstTurn 0 sampleScope 0 "session-1" "turn-1" "task" 0, .cancel 1 "user-1" "session-1"]

/-- The end of a turn revives a cancelled session. -/
theorem cancelled_session_becomes_idle :
    (((Transition.exec step State.empty cancelledRun).db.sessions.get "session-1").map
        CodingSession.status = some .cancelled) ∧
      ((Transition.exec step State.empty
          (cancelledRun ++ [.tail 0 sampleRun true true])).db.sessions.get "session-1").map
        CodingSession.status = some .idle := by
  decide +kernel

end Yuanlei.CodingSessions
