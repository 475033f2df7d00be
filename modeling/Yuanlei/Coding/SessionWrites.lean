import Mathlib.Logic.Relation
import Yuanlei.Coding.Sessions

/-!
# What the transactions write

One lemma for each transaction on coding sessions says what it does to the sessions and to the
numbers, and one what it does to the turns.  The first is about transactions whose object has the
status of its row.

Main results:

- `Numbered`: events and turns of a session are numbered from one.
- `SessionMoved`: what may become of the row of a session.
-/

namespace Yuanlei.CodingSessions

open Relation (ReflTransGen)

/-! ## Numbers -/

theorem nextSeq_range (n : Nat) : Tables.nextSeq (List.range' 1 n) = n + 1 := by
  have hmax : (List.range' 1 n).foldl max 0 = n := by
    induction n with
    | zero => rfl
    | succ n ih =>
      rw [List.range'_1_concat, List.foldl_append, ih]
      simp only [List.foldl_cons, List.foldl_nil]
      omega
  rw [Tables.nextSeq, hmax]

/-- The numbers are one, two and so on. -/
def Counts (seqs : List Nat) : Prop :=
  seqs = List.range' 1 seqs.length

theorem Counts.next {seqs : List Nat} (h : Counts seqs) :
    Counts (seqs ++ [Tables.nextSeq seqs]) := by
  unfold Counts at h ⊢
  rw [h, nextSeq_range, List.length_append, List.length_range', List.length_singleton,
    List.range'_1_concat, Nat.add_comm 1]

/-- Events and turns of every session are numbered without gap or duplicate. -/
structure Numbered (db : Tables) : Prop where
  events : ∀ sid, Counts (db.eventSeqs sid)
  turns : ∀ sid, Counts (db.turnSeqs sid)

namespace Numbered

variable {db : Tables}

theorem appendEvent (h : Numbered db) (sid : SessionId) (kind : SessionEventKind)
    (turnId : Option TurnId) : Numbered (db.appendEvent sid kind turnId) := by
  refine ⟨fun sid' => ?_, h.turns⟩
  unfold Tables.eventSeqs Tables.appendEvent
  simp only [List.filter_append, List.map_append]
  by_cases hsid : sid = sid'
  · subst hsid
    have hnext := (h.events sid).next
    simpa [Tables.eventSeqs] using hnext
  · have hold := h.events sid'
    simpa [hsid, Tables.eventSeqs] using hold

theorem withSessions (h : Numbered db) (sessions : Table SessionId CodingSession) :
    Numbered { db with sessions := sessions } :=
  ⟨h.events, h.turns⟩

/-- Updates of turns keep their numbers. -/
theorem modifyTurn (h : Numbered db) (tid : TurnId) {f : CodingSessionTurn → CodingSessionTurn}
    (hf : ∀ turn, (f turn).sessionId = turn.sessionId ∧ (f turn).seq = turn.seq) :
    Numbered { db with turns := db.turns.modify tid f } := by
  refine ⟨h.events, fun sid => ?_⟩
  have hold := h.turns sid
  have hsame : Tables.turnSeqs { db with turns := db.turns.modify tid f } sid = db.turnSeqs sid := by
    simp only [Tables.turnSeqs, Table.modify, Table.rows_mapRows, List.filter_map, List.map_map]
    have hkeep : ∀ e : TurnId × CodingSessionTurn,
        (if e.1 = tid then f e.2 else e.2).sessionId = e.2.sessionId ∧
          (if e.1 = tid then f e.2 else e.2).seq = e.2.seq := by
      intro e
      split
      · exact hf e.2
      · exact ⟨rfl, rfl⟩
    congr 1
    · funext e
      exact (hkeep e).2
    · congr 1
      funext e
      simp [(hkeep e).1]
  rwa [hsame]

theorem addTurn {db' : Tables} (h : Numbered db) {sid : SessionId} {tid : TurnId}
    {requestText : String} {status : TurnStatus} {now : Time}
    (hadd : db.addTurn sid tid requestText status now = some db') : Numbered db' := by
  obtain ⟨turns, hinsert, rfl⟩ := Option.map_eq_some_iff.mp hadd
  refine ⟨h.events, fun sid' => ?_⟩
  have hrows := Table.rows_of_insert hinsert
  simp only [Tables.turnSeqs, hrows, List.filter_append, List.map_append]
  by_cases hsid : sid = sid'
  · subst hsid
    have hnext := (h.turns sid).next
    simpa [Tables.turnSeqs] using hnext
  · have hold := h.turns sid'
    simpa [hsid, Tables.turnSeqs] using hold

end Numbered

/-! ## Sessions -/

def Allowed (status status' : SessionStatus) : Prop :=
  status' ∈ allowedTransitions status

/-- A session without the entry for its pending turn. -/
def CodingSession.settled (session : CodingSession) : CodingSession :=
  { session with pendingTurn := none }

/-- The status goes along the allowed transitions, and of a terminal session only the entry for the
pending turn changes. -/
structure SessionMoved (row row' : CodingSession) : Prop where
  status : ReflTransGen Allowed row.status row'.status
  terminal : row.status.isTerminal → row'.settled = row.settled

namespace SessionMoved

theorem refl (row : CodingSession) : SessionMoved row row :=
  ⟨.refl, fun _ => rfl⟩

theorem trans {row row' row'' : CodingSession} (h : SessionMoved row row')
    (h' : SessionMoved row' row'') : SessionMoved row row'' := by
  refine ⟨h.status.trans h'.status, fun hterminal => ?_⟩
  have hsame := h.terminal hterminal
  have hstatus : row'.settled.status = row.settled.status := congrArg CodingSession.status hsame
  have hterminal' : row'.status.isTerminal := by
    rw [show row'.status = row.status from hstatus]
    exact hterminal
  rw [h'.terminal hterminal', hsame]

end SessionMoved

theorem not_terminal_of_allowed {status status' : SessionStatus} (h : Allowed status status') :
    status.isTerminal = false := by
  cases status <;> simp [Allowed, allowedTransitions, SessionStatus.isTerminal] at h ⊢

/-- What an object of a session may be changed to. -/
def Advances (old new : CodingSession) : Prop :=
  new.status = old.status ∧ (old.status.isTerminal → new.settled = old.settled) ∨
    Allowed old.status new.status

theorem sessionMoved_flush {old new row : CodingSession} (h : Advances old new)
    (hrow : row.status = old.status) :
    (old.flush new row).status = new.status ∧ SessionMoved row (old.flush new row) := by
  have hstatus : (old.flush new row).status = new.status := by
    simp only [CodingSession.flush, changed, hrow]
    split <;> simp_all
  refine ⟨hstatus, ?_, ?_⟩
  · rw [hstatus, hrow]
    rcases h with ⟨hsame, -⟩ | hallowed
    · rw [hsame]
    · exact .single hallowed
  · intro hterminal
    rw [hrow] at hterminal
    rcases h with ⟨hsame, hsettled⟩ | hallowed
    · have heq := hsettled hterminal
      simp only [CodingSession.settled, CodingSession.mk.injEq] at heq
      simp [CodingSession.settled, CodingSession.flush, changed, heq]
    · rw [not_terminal_of_allowed hallowed] at hterminal
      cases hterminal

/-! ## Objects and turns along a transaction -/

namespace Txn

variable {t t' : Txn}

@[simp]
theorem appendEvent_session (t : Txn) (kind : SessionEventKind) (turnId : Option TurnId) :
    (t.appendEvent kind turnId).session = t.session :=
  rfl

@[simp]
theorem appendEvent_turns (t : Txn) (kind : SessionEventKind) (turnId : Option TurnId) :
    (t.appendEvent kind turnId).db.turns = t.db.turns :=
  rfl

@[simp]
theorem clearPendingTurn_status (t : Txn) (tid : TurnId) :
    (t.clearPendingTurn tid).session.status = t.session.status := by
  unfold clearPendingTurn
  split <;> rfl

@[simp]
theorem clearPendingTurn_turns (t : Txn) (tid : TurnId) :
    (t.clearPendingTurn tid).db.turns = t.db.turns := by
  unfold clearPendingTurn
  split <;> rfl

@[simp]
theorem noteCliSession_status (t : Txn) (cliSessionRef : Option String) :
    (t.noteCliSession cliSessionRef).session.status = t.session.status := by
  unfold noteCliSession
  split <;> rfl

@[simp]
theorem noteCliSession_turns (t : Txn) (cliSessionRef : Option String) :
    (t.noteCliSession cliSessionRef).db.turns = t.db.turns := by
  unfold noteCliSession
  split <;> rfl

@[simp]
theorem degradeResume_status (t : Txn) (stateMissing : Bool) :
    (t.degradeResume stateMissing).session.status = t.session.status := by
  unfold degradeResume
  split <;> rfl

@[simp]
theorem degradeResume_turns (t : Txn) (stateMissing : Bool) :
    (t.degradeResume stateMissing).db.turns = t.db.turns := by
  unfold degradeResume
  split <;> rfl

@[simp]
theorem recordEvents_session (t : Txn) (tid : TurnId) (kinds : List CodingTurn.EventKind) :
    (t.recordEvents tid kinds).session = t.session := by
  unfold recordEvents
  induction kinds generalizing t with
  | nil => rfl
  | cons kind kinds ih => rw [List.foldl_cons, ih, appendEvent_session]

@[simp]
theorem recordEvents_turns (t : Txn) (tid : TurnId) (kinds : List CodingTurn.EventKind) :
    (t.recordEvents tid kinds).db.turns = t.db.turns := by
  unfold recordEvents
  induction kinds generalizing t with
  | nil => rfl
  | cons kind kinds ih => rw [List.foldl_cons, ih, appendEvent_turns]

@[simp]
theorem closeTurn_session (t : Txn) (tid : TurnId) (turn : CodingSessionTurn) (status : TurnStatus)
    (resultSummary errorCode errorMessage : Option String) :
    (t.closeTurn tid turn status resultSummary errorCode errorMessage).session = t.session :=
  rfl

theorem closeTurn_turns (t : Txn) (tid : TurnId) (turn : CodingSessionTurn) (status : TurnStatus)
    (resultSummary errorCode errorMessage : Option String) :
    (t.closeTurn tid turn status resultSummary errorCode errorMessage).db.turns =
      t.db.turns.modify tid (turn.flush
        { turn with
          status := status
          resultSummary := resultSummary
          errorCode := errorCode
          errorMessage := errorMessage }) :=
  rfl

theorem transition_spec {status : SessionStatus} {errorCode errorMessage : Option String}
    (h : t.transition status errorCode errorMessage = some t') :
    Allowed t.session.status status ∧ t'.session.status = status ∧ t'.db.turns = t.db.turns := by
  unfold transition at h
  split at h
  · next hallowed =>
    cases h
    exact ⟨hallowed, rfl, rfl⟩
  · cases h

theorem makeReady_turns (h : t.makeReady = some t') : t'.db.turns = t.db.turns := by
  unfold makeReady at h
  split at h
  · obtain ⟨starting, hstarting, hidle⟩ := Option.bind_eq_some_iff.mp h
    rw [(transition_spec hidle).2.2, (transition_spec hstarting).2.2]
  · cases h
    rfl

end Txn

/-! ## Transactions -/

/-- What a transaction does to the numbers and to the sessions. -/
structure Effect (t t' : Txn) : Prop where
  sid : t'.sid = t.sid
  numbers : Numbered t.db → Numbered t'.db
  others : ∀ sid, sid ≠ t.sid → t'.db.sessions.get sid = t.db.sessions.get sid
  row : ∀ row, t.db.sessions.get t.sid = some row → row.status = t.session.status →
    ∃ row', t'.db.sessions.get t.sid = some row' ∧ row'.status = t'.session.status ∧
      SessionMoved row row'

namespace Effect

variable {t t' t'' : Txn}

/-- Transactions that leave the sessions alone. -/
theorem of_sessions_eq (hsid : t'.sid = t.sid) (hsession : t'.session = t.session)
    (hsessions : t'.db.sessions = t.db.sessions) (hnumbers : Numbered t.db → Numbered t'.db) :
    Effect t t' := by
  refine ⟨hsid, hnumbers, fun sid _ => by rw [hsessions], fun row hget hstatus => ?_⟩
  exact ⟨row, by rw [hsessions, hget], by rw [hsession, hstatus], SessionMoved.refl row⟩

theorem refl (t : Txn) : Effect t t :=
  of_sessions_eq rfl rfl rfl id

theorem trans (h : Effect t t') (h' : Effect t' t'') : Effect t t'' := by
  refine ⟨h'.sid.trans h.sid, h'.numbers ∘ h.numbers, fun sid hsid => ?_, fun row hget hstatus => ?_⟩
  · rw [h'.others sid (h.sid ▸ hsid), h.others sid hsid]
  · obtain ⟨row', hget', hstatus', hmoved⟩ := h.row row hget hstatus
    obtain ⟨row'', hget'', hstatus'', hmoved'⟩ := h'.row row' (h.sid ▸ hget') hstatus'
    exact ⟨row'', h.sid ▸ hget'', hstatus'', hmoved.trans hmoved'⟩

theorem assign (t : Txn) {session : CodingSession} (h : Advances t.session session) :
    Effect t (t.assign session) := by
  refine ⟨rfl, fun hnumbered => hnumbered.withSessions _, fun sid hsid => ?_,
    fun row hget hstatus => ?_⟩
  · simp [Txn.assign, hsid]
  · have hmoved := sessionMoved_flush h hstatus
    exact ⟨_, by simp [Txn.assign, hget], hmoved.1, hmoved.2⟩

theorem appendEvent (t : Txn) (kind : SessionEventKind) (turnId : Option TurnId) :
    Effect t (t.appendEvent kind turnId) :=
  of_sessions_eq rfl rfl rfl fun h => h.appendEvent t.sid kind turnId

theorem closeTurn (t : Txn) (tid : TurnId) (turn : CodingSessionTurn) (status : TurnStatus)
    (resultSummary errorCode errorMessage : Option String) :
    Effect t (t.closeTurn tid turn status resultSummary errorCode errorMessage) :=
  of_sessions_eq rfl rfl rfl fun h => h.modifyTurn tid fun _ => ⟨rfl, rfl⟩

theorem clearPendingTurn (t : Txn) (tid : TurnId) : Effect t (t.clearPendingTurn tid) := by
  unfold Txn.clearPendingTurn
  split
  · exact assign t (Or.inl ⟨rfl, fun _ => rfl⟩)
  · exact refl t

variable {errorCode errorMessage : Option String}

theorem transition {status : SessionStatus}
    (h : t.transition status errorCode errorMessage = some t') : Effect t t' := by
  unfold Txn.transition at h
  split at h
  · next hallowed =>
    cases h
    refine Effect.trans ?_ (appendEvent _ _ _)
    exact assign t (Or.inr hallowed)
  · cases h

theorem makeReady (h : t.makeReady = some t') : Effect t t' := by
  unfold Txn.makeReady at h
  split at h
  · obtain ⟨starting, hstarting, hidle⟩ := Option.bind_eq_some_iff.mp h
    exact (transition hstarting).trans (transition hidle)
  · cases h
    exact refl t

variable {tid : TurnId} {status : TurnStatus} {requestText : String} {now : Time}

theorem beginTurn (h : t.beginTurn tid requestText status now = some t') : Effect t t' := by
  unfold Txn.beginTurn at h
  split at h
  · obtain ⟨ready, hready, h⟩ := Option.bind_eq_some_iff.mp h
    obtain ⟨running, hrunning, h⟩ := Option.bind_eq_some_iff.mp h
    obtain ⟨db, hdb, h⟩ := Option.bind_eq_some_iff.mp h
    cases h
    have hboth := (makeReady hready).trans (transition hrunning)
    refine hboth.trans (of_sessions_eq rfl rfl ?_ fun hnumbered => hnumbered.addTurn hdb)
    obtain ⟨turns, -, rfl⟩ := Option.map_eq_some_iff.mp hdb
    rfl
  · cases h

theorem startTurn (h : t.startTurn tid requestText now = some t') : Effect t t' := by
  obtain ⟨begun, hbegun, rfl⟩ := Option.map_eq_some_iff.mp h
  exact (beginTurn hbegun).trans (appendEvent _ _ _)

theorem queueTurn {planOnly : Bool}
    {enqueueingRunId : Option String}
    (h : t.queueTurn tid requestText planOnly enqueueingRunId now = some t') : Effect t t' := by
  obtain ⟨begun, hbegun, rfl⟩ := Option.map_eq_some_iff.mp h
  refine Effect.trans ?_ (appendEvent _ _ _)
  refine (beginTurn hbegun).trans ?_
  exact assign begun (Or.inl ⟨rfl, fun _ => rfl⟩)

variable {cliSessionRef : Option String}

theorem noteCliSession (hopen : t.session.status.isTerminal = false) :
    Effect t (t.noteCliSession cliSessionRef) := by
  unfold Txn.noteCliSession
  split
  · exact assign t (Or.inl ⟨rfl, fun hterminal => absurd hterminal (by simp [hopen])⟩)
  · exact refl t

theorem degradeResume {stateMissing : Bool} (hopen : t.session.status.isTerminal = false) :
    Effect t (t.degradeResume stateMissing) := by
  unfold Txn.degradeResume
  split
  · refine Effect.trans ?_ (appendEvent _ _ _)
    exact assign t (Or.inl ⟨rfl, fun hterminal => absurd hterminal (by simp [hopen])⟩)
  · exact refl t

theorem recordEvents (t : Txn) (tid : TurnId) (kinds : List CodingTurn.EventKind) :
    Effect t (t.recordEvents tid kinds) := by
  unfold Txn.recordEvents
  induction kinds generalizing t with
  | nil => exact refl t
  | cons kind kinds ih => exact (appendEvent t _ _).trans (ih _)

variable {turn : CodingSessionTurn}

theorem finishTurn {resultSummary : Option String}
    (h : t.finishTurn tid turn status resultSummary errorCode errorMessage cliSessionRef = some t') :
    Effect t t' := by
  unfold Txn.finishTurn at h
  have hopen : t.session.status.isTerminal = false := by
    have hallowed := (Txn.transition_spec h).1
    simpa using not_terminal_of_allowed hallowed
  refine Effect.trans ?_ (transition h)
  refine Effect.trans ?_ (appendEvent _ _ _)
  refine Effect.trans ?_ (noteCliSession (by simpa using hopen))
  exact (closeTurn t tid turn status resultSummary errorCode errorMessage).trans
    (clearPendingTurn _ tid)

theorem executeTail {run : CliRun} {cancelled : Bool}
    (h : CodingSessions.executeTail t tid turn run cancelled = some t') : Effect t t' := by
  unfold CodingSessions.executeTail at h
  dsimp only at h
  have hopen : t.session.status.isTerminal = false := by
    split at h
    · simpa using not_terminal_of_allowed (Txn.transition_spec h).1
    · simpa using not_terminal_of_allowed (Txn.transition_spec h).1
  have hresumed : Effect t (t.degradeResume run.stateMissing) := degradeResume hopen
  refine (hresumed.trans (recordEvents _ tid run.events)).trans ?_
  split at h
  · exact ((closeTurn _ _ _ _ _ _ _).trans (appendEvent _ _ _)).trans (transition h)
  · exact finishTurn h

theorem cancelQueuedTurn (h : CodingSessions.cancelQueuedTurn t tid turn = some t') : Effect t t' :=
  (((closeTurn _ _ _ _ _ _ _).trans (clearPendingTurn _ _)).trans (appendEvent _ _ _)).trans
    (transition h)

theorem failTurn {errorCode errorMessage : String}
    (h : CodingSessions.failTurn t tid turn errorCode errorMessage = some t') : Effect t t' := by
  unfold CodingSessions.failTurn at h
  dsimp only at h
  have hclosed := fun resultSummary code message =>
    ((closeTurn t tid turn .failed resultSummary code message).trans
      (clearPendingTurn _ tid)).trans (appendEvent _ (.turnFinished .failed code) (some tid))
  split at h
  · split at h
    · exact (hclosed _ _ _).trans (transition h)
    · cases h
      exact hclosed _ _ _
  · cases h

theorem cancelSession {uid : String} (h : CodingSessions.cancelSession t uid = some t') :
    Effect t t' := by
  unfold CodingSessions.cancelSession at h
  split at h
  · exact transition h
  · cases h

theorem skipTurn (t : Txn) (tid : TurnId) (turn : CodingSessionTurn) :
    Effect t (CodingSessions.skipTurn t tid turn) :=
  (closeTurn _ _ _ _ _ _ _).trans (clearPendingTurn _ _)

end Effect

/-! ## Turns -/

/-- What may come after a status of a turn. -/
inductive TurnNext : TurnStatus → TurnStatus → Prop
  | taken : TurnNext .pending .running
  | skipped : TurnNext .pending .cancelled
  | completed : TurnNext .running .completed
  | failed : TurnNext .running .failed
  | cancelled : TurnNext .running .cancelled

variable {status status' : TurnStatus}

theorem TurnNext.ne (h : TurnNext status status') :
    status' ≠ status := by
  cases h <;> decide

theorem TurnNext.isActive (h : TurnNext status status') :
    status.isActive = true := by
  cases h <;> rfl

theorem turnNext_running (h : status.isActive = false) :
    TurnNext .running status := by
  cases status with
  | pending => cases h
  | running => cases h
  | completed => exact .completed
  | failed => exact .failed
  | cancelled => exact .cancelled

/-- The transaction writes the turn through this object and ends it. -/
structure Closes (t t' : Txn) (tid : TurnId) (turn : CodingSessionTurn) : Prop where
  turns : ∃ new, t'.db.turns = t.db.turns.modify tid (turn.flush new) ∧ new.status.isActive = false ∧
    (turn.status = .running ∨ turn.status = .pending ∧ new.status = .cancelled)
  session : t'.session.status ≠ .running

/-- The transaction adds a turn to a session that had none and marks it as running. -/
structure Opens (t t' : Txn) (tid : TurnId) : Prop where
  turns : ∃ turn, t.db.turns.insert tid turn = some t'.db.turns ∧ turn.sessionId = t.sid ∧
    turn.status.isActive = true
  before : t.session.status = .pending ∨ t.session.status = .idle
  after : t'.session.status = .running

/-- The transaction ends the session and leaves the turns alone. -/
structure Ends (t t' : Txn) : Prop where
  turns : t'.db.turns = t.db.turns
  session : t'.session.status.isTerminal = true

section Specs

variable {t t' : Txn} {tid : TurnId} {turn : CodingSessionTurn} {now : Time} {requestText : String}

theorem beginTurn_spec {status : TurnStatus} (hstatus : status.isActive = true)
    (h : t.beginTurn tid requestText status now = some t') :
    Opens t t' tid ∧ ∃ turn, t'.db.turns.get tid = some turn ∧ turn.status = status ∧
      turn.sessionId = t.sid := by
  unfold Txn.beginTurn at h
  split at h
  · next hbefore =>
    obtain ⟨ready, hready, h⟩ := Option.bind_eq_some_iff.mp h
    obtain ⟨running, hrunning, h⟩ := Option.bind_eq_some_iff.mp h
    obtain ⟨db, hdb, h⟩ := Option.bind_eq_some_iff.mp h
    cases h
    obtain ⟨turns, hinsert, rfl⟩ := Option.map_eq_some_iff.mp hdb
    obtain ⟨-, hafter, hsame⟩ := Txn.transition_spec hrunning
    rw [hsame, Txn.makeReady_turns hready] at hinsert
    have hget := (Table.get_of_insert hinsert).2 tid
    rw [if_pos rfl] at hget
    exact ⟨⟨⟨_, hinsert, rfl, hstatus⟩, hbefore, hafter⟩, _, hget, rfl, rfl⟩
  · cases h

theorem startTurn_spec (h : t.startTurn tid requestText now = some t') :
    Opens t t' tid ∧ ∃ turn, t'.db.turns.get tid = some turn ∧ turn.status = .running ∧
      turn.sessionId = t.sid := by
  obtain ⟨begun, hbegun, rfl⟩ := Option.map_eq_some_iff.mp h
  obtain ⟨hopens, hturn⟩ := beginTurn_spec rfl hbegun
  exact ⟨⟨hopens.turns, hopens.before, hopens.after⟩, hturn⟩

theorem queueTurn_spec {planOnly : Bool} {enqueueingRunId : Option String}
    (h : t.queueTurn tid requestText planOnly enqueueingRunId now = some t') :
    Opens t t' tid := by
  obtain ⟨begun, hbegun, rfl⟩ := Option.map_eq_some_iff.mp h
  obtain ⟨hopens, -⟩ := beginTurn_spec rfl hbegun
  exact ⟨hopens.turns, hopens.before, hopens.after⟩

theorem executeTail_spec {run : CliRun} {cancelled : Bool} (hturn : turn.status = .running)
    (h : executeTail t tid turn run cancelled = some t') : Closes t t' tid turn := by
  unfold executeTail at h
  dsimp only at h
  split at h
  · obtain ⟨-, hstatus, hturns⟩ := Txn.transition_spec h
    rw [Txn.appendEvent_turns, Txn.closeTurn_turns, Txn.recordEvents_turns,
      Txn.degradeResume_turns] at hturns
    exact ⟨⟨_, hturns, rfl, Or.inl hturn⟩, by rw [hstatus]; decide⟩
  · unfold Txn.finishTurn at h
    obtain ⟨-, hstatus, hturns⟩ := Txn.transition_spec h
    rw [Txn.appendEvent_turns, Txn.noteCliSession_turns, Txn.clearPendingTurn_turns,
      Txn.closeTurn_turns, Txn.recordEvents_turns, Txn.degradeResume_turns] at hturns
    refine ⟨⟨_, hturns, ?_, Or.inl hturn⟩, ?_⟩
    · cases run.failed <;> rfl
    · rw [hstatus]
      cases run.failed <;> decide

theorem cancelQueuedTurn_spec (hturn : turn.status = .running)
    (h : cancelQueuedTurn t tid turn = some t') : Closes t t' tid turn := by
  unfold cancelQueuedTurn at h
  obtain ⟨-, hstatus, hturns⟩ := Txn.transition_spec h
  rw [Txn.appendEvent_turns, Txn.clearPendingTurn_turns, Txn.closeTurn_turns] at hturns
  exact ⟨⟨_, hturns, rfl, Or.inl hturn⟩, by rw [hstatus]; decide⟩

theorem failTurn_spec {errorCode errorMessage : String}
    (h : failTurn t tid turn errorCode errorMessage = some t') : Closes t t' tid turn := by
  unfold failTurn at h
  dsimp only at h
  split at h
  · next hturn =>
    split at h
    · obtain ⟨-, hstatus, hturns⟩ := Txn.transition_spec h
      rw [Txn.appendEvent_turns, Txn.clearPendingTurn_turns, Txn.closeTurn_turns] at hturns
      exact ⟨⟨_, hturns, rfl, Or.inl hturn⟩, by rw [hstatus]; decide⟩
    · next hrunning =>
      cases h
      have hturns := Txn.clearPendingTurn_turns
        (t.closeTurn tid turn .failed none (some errorCode) (some errorMessage)) tid
      rw [Txn.closeTurn_turns] at hturns
      exact ⟨⟨_, hturns, rfl, Or.inl hturn⟩, hrunning⟩
  · cases h

theorem skipTurn_spec (hterminal : t.session.status.isTerminal = true)
    (hturn : turn.status = .pending) : Closes t (skipTurn t tid turn) tid turn := by
  have hturns := Txn.clearPendingTurn_turns
    (t.closeTurn tid turn .cancelled none (some "session_terminal") none) tid
  rw [Txn.closeTurn_turns] at hturns
  refine ⟨⟨_, hturns, rfl, Or.inr ⟨hturn, rfl⟩⟩, ?_⟩
  rw [skipTurn, Txn.clearPendingTurn_status, Txn.closeTurn_session]
  intro hrunning
  rw [hrunning] at hterminal
  cases hterminal

theorem cancelSession_spec {uid : String} (h : cancelSession t uid = some t') : Ends t t' := by
  unfold cancelSession at h
  split at h
  · obtain ⟨-, hstatus, hturns⟩ := Txn.transition_spec h
    exact ⟨hturns, by rw [hstatus]; rfl⟩
  · cases h

variable {task : String}

theorem runTurn_started (h : runTurn t tid task now = some (.started t' turn)) :
    Effect t t' ∧ Opens t t' tid ∧ t'.db.turns.get tid = some turn ∧ turn.status = .running ∧
      turn.sessionId = t.sid := by
  unfold runTurn at h
  dsimp only at h
  split at h
  · obtain ⟨_, _, hcase⟩ := Option.map_eq_some_iff.mp h
    cases hcase
  · obtain ⟨started, hstarted, h⟩ := Option.bind_eq_some_iff.mp h
    obtain ⟨found, hfound, hcase⟩ := Option.map_eq_some_iff.mp h
    cases hcase
    obtain ⟨hopens, added, hadded, hstatus, hsession⟩ := startTurn_spec hstarted
    rw [hfound, Option.some.injEq] at hadded
    subst hadded
    exact ⟨Effect.startTurn hstarted, hopens, hfound, hstatus, hsession⟩

theorem runTurn_overBudget (h : runTurn t tid task now = some (.overBudget t')) : Effect t t' ∧ Ends t t' := by
  unfold runTurn at h
  dsimp only at h
  split at h
  · obtain ⟨failed, hfailed, hcase⟩ := Option.map_eq_some_iff.mp h
    cases hcase
    obtain ⟨-, hstatus, hturns⟩ := Txn.transition_spec hfailed
    exact ⟨Effect.transition hfailed, hturns, by rw [hstatus]; rfl⟩
  · obtain ⟨started, -, h⟩ := Option.bind_eq_some_iff.mp h
    obtain ⟨_, _, hcase⟩ := Option.map_eq_some_iff.mp h
    cases hcase

end Specs

end Yuanlei.CodingSessions
