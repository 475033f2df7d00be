import Yuanlei.Execution.Exclusivity

/-!
# Exactly-once dispatch

Every request of the queue leads to at most one run, and to one exactly if it was
dispatched.  Submitting, dispatching, continuing and recovering decide on rows that they
read under the lock of the conversation.  Cancelling and steering decide on a row that was
loaded before the lock; a dispatch that commits in between is then overwritten.

Main results:

- `exactly_once_dispatch`: it holds in every run of the queue in which no
  cancellation or steering meets a row whose status has changed since it was loaded.
- `stale_cancel_breaks_dispatch`: without that condition a request with a run can
  end up cancelled.
-/

namespace Yuanlei

open Relation
open AgentRunRepository

/-! ## The invariant -/

/-- The run column of an input message. -/
def Database.messageRunId (db : Database) (messageId : Nat) : Option (Option RunId) :=
  (db.messages.get messageId).map Message.runId

/-- Requests, input messages and runs agree on what has been dispatched. -/
structure DispatchInv (db : Database) : Prop where
  input : ∀ {id r}, db.requests.get id = some r → (db.messageRunId r.inputMessageId).isSome
  distinct : ∀ {i j a b}, db.requests.get i = some a → db.requests.get j = some b →
    a.inputMessageId = b.inputMessageId → i = j
  known : ∀ {id r}, db.requests.get id = some r → r.status ≠ .failed
  linked : ∀ {id r}, db.requests.get id = some r → r.status = .dispatched →
    ∃ runId run, db.runs.get runId = some run ∧ run.requestId = id ∧
      r.dispatchedRunId = some runId ∧ db.messageRunId r.inputMessageId = some (some runId)
  covered : ∀ {runId run}, db.runs.get runId = some run → run.runType = .chat ∧
    ∃ r, db.requests.get run.requestId = some r ∧ r.status = .dispatched
  unique : ∀ {i j a b}, db.runs.get i = some a → db.runs.get j = some b →
    a.requestId = b.requestId → i = j

/-- How a request may move: a queued one may be dispatched, cancelled, rejected or stay queued,
any other one is frozen. -/
def AgentRunRequest.Moves (r r' : AgentRunRequest) : Prop :=
  r' = r ∨ r.status = .queued ∧
    (r'.status = .queued ∨ r'.status = .dispatched ∨ r'.status = .cancelled ∨ r'.status = .rejected)

/-- Every request is kept and moves as it may. -/
def RequestsMove (db db' : Database) : Prop :=
  ∀ id r, db.requests.get id = some r → ∃ r', db'.requests.get id = some r' ∧ r.Moves r'

variable {db db' : Database}

theorem RequestsMove.of_requests_eq (h : db'.requests = db.requests) : RequestsMove db db' := by
  intro id r hr
  exact ⟨r, h ▸ hr, .inl rfl⟩

theorem RequestsMove.trans {db₁ db₂ : Database} (h₁ : RequestsMove db db₁)
    (h₂ : RequestsMove db₁ db₂) : RequestsMove db db₂ := by
  intro id r hr
  obtain ⟨r₁, hr₁, hmove₁⟩ := h₁ id r hr
  obtain ⟨r₂, hr₂, hmove₂⟩ := h₂ id r₁ hr₁
  refine ⟨r₂, hr₂, ?_⟩
  rcases hmove₁ with rfl | ⟨hqueued, hnext⟩
  · exact hmove₂
  · rcases hmove₂ with rfl | ⟨-, hlast⟩
    · exact .inr ⟨hqueued, hnext⟩
    · exact .inr ⟨hqueued, hlast⟩

/-! ## Writes that keep the invariant -/

section

variable (h : DispatchInv db)
include h

theorem DispatchInv.of_links (hrequests : db'.requests = db.requests)
    (hmessages : ∀ {id}, (db.messageRunId id).isSome → db'.messageRunId id = db.messageRunId id)
    (hback : ∀ {runId run'}, db'.runs.get runId = some run' → ∃ run,
      db.runs.get runId = some run ∧ run'.requestId = run.requestId ∧ run'.runType = run.runType)
    (hforth : ∀ {runId run}, db.runs.get runId = some run → ∃ run',
      db'.runs.get runId = some run' ∧ run'.requestId = run.requestId) :
    DispatchInv db' where
  input := by
    intro id r hr
    rw [hrequests] at hr
    rw [hmessages (h.input hr)]
    exact h.input hr
  distinct := by
    intro i j a b ha hb
    rw [hrequests] at ha hb
    exact h.distinct ha hb
  known := by
    intro id r hr
    rw [hrequests] at hr
    exact h.known hr
  linked := by
    intro id r hr hstatus
    rw [hrequests] at hr
    obtain ⟨runId, run, hrun, hrequest, hlink, hmessage⟩ := h.linked hr hstatus
    obtain ⟨run', hrun', hsame⟩ := hforth hrun
    exact ⟨runId, run', hrun', hsame.trans hrequest, hlink, (hmessages (h.input hr)).trans hmessage⟩
  covered := by
    intro runId run' hrun'
    obtain ⟨run, hrun, hrequest, htype⟩ := hback hrun'
    obtain ⟨hchat, r, hr, hstatus⟩ := h.covered hrun
    rw [hrequests, hrequest]
    exact ⟨htype.trans hchat, r, hr, hstatus⟩
  unique := by
    intro i j a' b' ha' hb' heq
    obtain ⟨a, ha, hra, -⟩ := hback ha'
    obtain ⟨b, hb, hrb, -⟩ := hback hb'
    exact h.unique ha hb (hra.symm.trans (heq.trans hrb))

variable {id : String}

theorem DispatchInv.no_run_of_ne {r : AgentRunRequest} (hr : db.requests.get id = some r)
    (hstatus : r.status ≠ .dispatched)
    {runId : RunId} {run : AgentRun} (hrun : db.runs.get runId = some run) :
    run.requestId ≠ id := by
  rintro rfl
  obtain ⟨-, r', hr', hdispatched⟩ := h.covered hrun
  rw [hr] at hr'
  cases hr'
  exact hstatus hdispatched

theorem DispatchInv.modify_queued {f : AgentRunRequest → AgentRunRequest}
    {messages : Table Nat Message}
    (hqueued : ∀ {r}, db.requests.get id = some r → r.status = .queued)
    (hstatus : ∀ r, r.status = .queued → (f r).status ≠ .dispatched ∧ (f r).status ≠ .failed)
    (hinput : ∀ r, (f r).inputMessageId = r.inputMessageId)
    (hmessages : ∀ m, (messages.get m).map Message.runId = db.messageRunId m) :
    DispatchInv { db with requests := db.requests.modify id f, messages := messages } := by
  -- Every row of the new table is an old one or the rewritten queued one.
  have hrow : ∀ {j r'}, (db.requests.modify id f).get j = some r' →
      ∃ r, db.requests.get j = some r ∧ r'.inputMessageId = r.inputMessageId ∧
        (r' = r ∨ r.status = .queued ∧ r'.status ≠ .dispatched ∧ r'.status ≠ .failed) := by
    intro j r' hr'
    rw [Table.get_modify] at hr'
    split_ifs at hr' with hj
    · obtain ⟨r, hr, rfl⟩ := Option.map_eq_some_iff.mp hr'
      have hq := hqueued (hj ▸ hr)
      exact ⟨r, hr, hinput r, .inr ⟨hq, hstatus r hq⟩⟩
    · exact ⟨r', hr', rfl, .inl rfl⟩
  constructor
  · intro j r' hr'
    obtain ⟨r, hr, hsame, -⟩ := hrow hr'
    rw [hsame, Database.messageRunId, hmessages]
    exact h.input hr
  · intro i j a' b' ha' hb' heq
    obtain ⟨a, ha, hia, -⟩ := hrow ha'
    obtain ⟨b, hb, hib, -⟩ := hrow hb'
    exact h.distinct ha hb (hia.symm.trans (heq.trans hib))
  · intro j r' hr'
    obtain ⟨r, hr, -, rfl | ⟨-, -, hnot⟩⟩ := hrow hr'
    · exact h.known hr
    · exact hnot
  · intro j r' hr' hdispatched
    obtain ⟨r, hr, -, rfl | ⟨-, hnot, -⟩⟩ := hrow hr'
    · obtain ⟨runId, run, hrun, hrequest, hlink, hmessage⟩ := h.linked hr hdispatched
      exact ⟨runId, run, hrun, hrequest, hlink, (hmessages _).trans hmessage⟩
    · exact absurd hdispatched hnot
  · intro runId run hrun
    obtain ⟨hchat, r, hr, hdispatched⟩ := h.covered hrun
    refine ⟨hchat, r, ?_, hdispatched⟩
    rw [Table.get_modify, if_neg]
    · exact hr
    · intro heq
      rw [hqueued (heq ▸ hr)] at hdispatched
      cases hdispatched
  · exact h.unique

theorem DispatchInv.insert_request {requestId : String}
    {messageId : Nat} {message : Message} {request : AgentRunRequest}
    (hstatus : request.status = .queued ∨ request.status = .rejected)
    (hinput : request.inputMessageId = messageId)
    (hinsert : insertRequest db requestId messageId message request = some db') :
    DispatchInv db' := by
  obtain ⟨hfreshM, hfreshR, hmessages, hrequests, hdb⟩ := insertRequest_get hinsert
  have hruns : db'.runs = db.runs := by rw [hdb]
  have hknown : request.status ≠ .failed ∧ request.status ≠ .dispatched := by
    rcases hstatus with hs | hs <;> simp [hs]
  -- Input messages of older requests exist, so the new message is none of them.
  have hold : ∀ {id r}, db.requests.get id = some r → r.inputMessageId ≠ messageId := by
    intro id r hr heq
    have hsome := h.input hr
    rw [heq, Database.messageRunId, hfreshM] at hsome
    cases hsome
  have hlinks : ∀ {id r}, db.requests.get id = some r →
      db'.messageRunId r.inputMessageId = db.messageRunId r.inputMessageId := by
    intro id r hr
    rw [Database.messageRunId, Database.messageRunId, hmessages, if_neg (hold hr)]
  constructor
  · intro id r hr
    rw [hrequests] at hr
    split_ifs at hr with hid
    · cases hr
      simp [Database.messageRunId, hmessages, hinput]
    · rw [hlinks hr]
      exact h.input hr
  · intro i j a b ha hb heq
    rw [hrequests] at ha hb
    split_ifs at ha hb with hi hj hj
    · rw [hi, hj]
    · cases ha
      exact absurd (heq.symm.trans hinput) (hold hb)
    · cases hb
      exact absurd (heq.trans hinput) (hold ha)
    · exact h.distinct ha hb heq
  · intro id r hr
    rw [hrequests] at hr
    split_ifs at hr with hid
    · cases hr
      exact hknown.1
    · exact h.known hr
  · intro id r hr hdispatched
    rw [hrequests] at hr
    split_ifs at hr with hid
    · cases hr
      exact absurd hdispatched hknown.2
    · obtain ⟨runId, run, hrun, hrequest, hlink, hmessage⟩ := h.linked hr hdispatched
      exact ⟨runId, run, hruns ▸ hrun, hrequest, hlink, (hlinks hr).trans hmessage⟩
  · intro runId run hrun
    rw [hruns] at hrun
    obtain ⟨hchat, r, hr, hdispatched⟩ := h.covered hrun
    refine ⟨hchat, r, ?_, hdispatched⟩
    rw [hrequests, if_neg]
    · exact hr
    · intro heq
      rw [heq, hfreshR] at hr
      cases hr
  · intro i j a b ha hb
    rw [hruns] at ha hb
    exact h.unique ha hb

end

/-! ## Dispatch -/

theorem bindRunScope_messages (db : Database) (runId : RunId) (scopeKey threadId : String) :
    (bindRunScope db runId scopeKey threadId).messages = db.messages := by
  unfold bindRunScope
  simp only
  split <;> rfl

theorem linkDispatch_requests {requestId : String} {head : AgentRunRequest}
    (hhead : db.requests.get requestId = some head) (hqueued : head.status = .queued)
    (plan : DispatchPlan) (now : Time) (id : String) :
    (linkDispatch db requestId head plan now).requests.get id =
      if id = requestId then some (head.dispatched plan.runId now) else db.requests.get id := by
  simp only [linkDispatch, markDispatched, bindRunScope_requests, Table.get_modify]
  split_ifs with hid
  · simp [hid, hhead, hqueued]
  · rfl

theorem linkDispatch_messageRunId (db : Database) (requestId : String) (head : AgentRunRequest)
    (plan : DispatchPlan) (now : Time) (id : Nat) :
    (linkDispatch db requestId head plan now).messageRunId id =
      if id = head.inputMessageId then (db.messageRunId id).map fun _ => some plan.runId
      else db.messageRunId id := by
  simp only [Database.messageRunId, linkDispatch, markDispatched, bindRunScope_messages,
    Table.get_modify]
  split_ifs with hid
  · simp [Function.comp_def]
  · rfl

theorem DispatchInv.dispatch {db db₁ : Database} (h : DispatchInv db) {requestId : String}
    {head : AgentRunRequest} {binding : WorkdirBinding} {plan : DispatchPlan} {now : Time}
    (hhead : db.requests.get requestId = some head) (hqueued : head.status = .queued)
    (hcreated : Created db (chatRun requestId head binding plan.runId) now db₁) :
    DispatchInv (linkDispatch db₁ requestId head plan now) := by
  have hsame : db₁.requests = db.requests := by rw [hcreated.others]
  have hmessages₁ : ∀ id, db₁.messageRunId id = db.messageRunId id := by
    intro id
    rw [Database.messageRunId, Database.messageRunId, hcreated.others]
  have hrequests : ∀ id, (linkDispatch db₁ requestId head plan now).requests.get id =
      if id = requestId then some (head.dispatched plan.runId now) else db.requests.get id := by
    intro id
    rw [linkDispatch_requests (hsame ▸ hhead) hqueued, hsame]
  have hruns : ∀ j, (linkDispatch db₁ requestId head plan now).runs.get j =
      if j = plan.runId then some ((chatRun requestId head binding plan.runId).row now)
      else db.runs.get j := by
    intro j
    rw [linkDispatch_runs]
    exact hcreated.runs j
  -- Only the input message of the dispatched request is linked to the new run.
  have hmessages : ∀ {id r}, db.requests.get id = some r → id ≠ requestId →
      (linkDispatch db₁ requestId head plan now).messageRunId r.inputMessageId =
        db.messageRunId r.inputMessageId := by
    intro id r hr hid
    rw [linkDispatch_messageRunId, if_neg, hmessages₁]
    exact fun heq => hid (h.distinct hr hhead heq)
  have hown : (linkDispatch db₁ requestId head plan now).messageRunId head.inputMessageId =
      some (some plan.runId) := by
    obtain ⟨m, hm⟩ := Option.isSome_iff_exists.mp (h.input hhead)
    rw [linkDispatch_messageRunId, if_pos rfl, hmessages₁, hm]
    rfl
  have hnorun : ∀ {runId run}, db.runs.get runId = some run → run.requestId ≠ requestId :=
    fun hrun => h.no_run_of_ne hhead (by simp [hqueued]) hrun
  constructor
  · intro id r hr
    rw [hrequests] at hr
    split_ifs at hr with hid
    · cases hr
      have hget : (head.dispatched plan.runId now).inputMessageId = head.inputMessageId := rfl
      rw [hget, hown]
      rfl
    · rw [hmessages hr hid]
      exact h.input hr
  · intro i j a b ha hb heq
    rw [hrequests] at ha hb
    split_ifs at ha hb with hi hj hj
    · rw [hi, hj]
    · cases ha
      rw [hi]
      exact h.distinct hhead hb heq
    · cases hb
      rw [hj]
      exact h.distinct ha hhead heq
    · exact h.distinct ha hb heq
  · intro id r hr
    rw [hrequests] at hr
    split_ifs at hr with hid
    · cases hr
      simp [AgentRunRequest.dispatched]
    · exact h.known hr
  · intro id r hr hdispatched
    rw [hrequests] at hr
    split_ifs at hr with hid
    · cases hr
      exact ⟨plan.runId, (chatRun requestId head binding plan.runId).row now,
        (hruns plan.runId).trans (if_pos rfl), hid.symm, rfl, hown⟩
    · obtain ⟨runId, run, hrun, hrequest, hlink, hmessage⟩ := h.linked hr hdispatched
      refine ⟨runId, run, ?_, hrequest, hlink, (hmessages hr hid).trans hmessage⟩
      rw [hruns, if_neg]
      · exact hrun
      · rintro rfl
        have hfresh : db.runs.get plan.runId = none := hcreated.freshId
        rw [hfresh] at hrun
        cases hrun
  · intro runId run hrun
    rw [hruns] at hrun
    split_ifs at hrun with hid
    · cases hrun
      refine ⟨rfl, head.dispatched plan.runId now, ?_, rfl⟩
      exact (hrequests requestId).trans (if_pos rfl)
    · obtain ⟨hchat, r, hr, hdispatched⟩ := h.covered hrun
      refine ⟨hchat, r, ?_, hdispatched⟩
      rw [hrequests, if_neg (hnorun hrun)]
      exact hr
  · intro i j a b ha hb heq
    rw [hruns] at ha hb
    split_ifs at ha hb with hi hj hj
    · rw [hi, hj]
    · cases ha
      exact absurd heq.symm (hnorun hb)
    · cases hb
      exact absurd heq (hnorun ha)
    · exact h.unique ha hb heq

/-! ## Steps -/

theorem queueWrite_dispatchInv (hwrite : QueueWrite db db')
    (h : DispatchInv db) : DispatchInv db' := by
  cases hwrite with
  | request hstatus hundispatched hinput hmessage hsteer hinsert =>
    exact h.insert_request hstatus hinput hinsert
  | dispatch hhead hqueued hidle hcreated => exact h.dispatch hhead hqueued hcreated
  | @reject requestId request now hrequest hqueued =>
    refine h.modify_queued ?_ ?_ (fun _ => rfl) ?_
    · intro r hr
      rw [hrequest] at hr
      cases hr
      exact hqueued
    · intro r _
      simp
    · intro m
      rw [Table.get_modify]
      split <;> simp [Database.messageRunId, Function.comp_def]
  | execute e hexec =>
    have hframe := execution_frame db e hexec
    refine h.of_links hframe.requests (fun _ => hframe.messages _) ?_ ?_
    · intro runId run' hrun'
      obtain ⟨run, hrun, hev⟩ := execution_back db e hexec hrun'
      exact ⟨run, hrun, congrArg RunIdentity.requestId hev.identity,
        congrArg RunIdentity.runType hev.identity⟩
    · intro runId run hrun
      obtain ⟨run', hrun', hev⟩ := step_evolves db e runId run hrun
      exact ⟨run', hrun', congrArg RunIdentity.requestId hev.identity⟩
  | fence runId =>
    refine h.of_links rfl (fun _ => rfl) ?_ ?_
    · intro j run' hrun'
      obtain ⟨run, hrun, hidentity, -⟩ := clearFence_comesFrom db runId j run' hrun'
      exact ⟨run, hrun, congrArg RunIdentity.requestId hidentity,
        congrArg RunIdentity.runType hidentity⟩
    · intro j run hrun
      simp only [clearFence, Table.get_modify]
      split_ifs
      · exact ⟨{ run with runtimeCleanupPending := false }, by rw [hrun]; rfl, rfl⟩
      · exact ⟨run, hrun, rfl⟩
  | message hinsert =>
    obtain ⟨hfresh, hget⟩ := Table.get_of_insert hinsert
    refine h.of_links rfl ?_ (fun hrun => ⟨_, hrun, rfl, rfl⟩) (fun hrun => ⟨_, hrun, rfl⟩)
    intro id hsome
    simp only [Database.messageRunId, hget]
    rw [if_neg]
    rintro rfl
    rw [Database.messageRunId, hfresh] at hsome
    cases hsome
  | context conversations projects =>
    exact h.of_links rfl (fun _ => rfl) (fun hrun => ⟨_, hrun, rfl, rfl⟩)
      (fun hrun => ⟨_, hrun, rfl⟩)

theorem queueWrite_requestsMove (hwrite : QueueWrite db db') : RequestsMove db db' := by
  cases hwrite with
  | request hstatus hundispatched hinput hmessage hsteer hinsert =>
    obtain ⟨-, hfresh, -, hrequests, -⟩ := insertRequest_get hinsert
    intro id r hr
    refine ⟨r, ?_, .inl rfl⟩
    rw [hrequests, if_neg]
    · exact hr
    · rintro rfl
      rw [hfresh] at hr
      cases hr
  | @dispatch db₁ requestId head binding plan now hhead hqueued hidle hcreated =>
    intro id r hr
    have hsame : db₁.requests = db.requests := by rw [hcreated.others]
    rw [linkDispatch_requests (hsame ▸ hhead) hqueued, hsame]
    split_ifs with hid
    · rw [hid, hhead] at hr
      cases hr
      exact ⟨_, rfl, .inr ⟨hqueued, .inr (.inl rfl)⟩⟩
    · exact ⟨r, hr, .inl rfl⟩
  | @reject requestId request now hrequest hqueued =>
    intro id r hr
    simp only [rejectRequest, Table.get_modify]
    split_ifs with hid
    · rw [hid, hrequest] at hr
      cases hr
      rw [hid, hrequest]
      exact ⟨_, rfl, .inr ⟨hqueued, .inr (.inr (.inr rfl))⟩⟩
    · exact ⟨r, hr, .inl rfl⟩
  | execute e hexec => exact .of_requests_eq (execution_frame db e hexec).requests
  | fence runId => exact .of_requests_eq rfl
  | message hinsert => exact .of_requests_eq rfl
  | context conversations projects => exact .of_requests_eq rfl

theorem queueWrites_requestsMove (hwrites : QueueWrites db db') : RequestsMove db db' := by
  induction hwrites with
  | refl => exact .of_requests_eq rfl
  | tail _ hlast ih => exact ih.trans (queueWrite_requestsMove hlast)

/-- The session whose loaded request a step commits. -/
def QueueLabel.committed : QueueLabel → Option Nat
  | .cancel session | .steer session => some session
  | _ => none

/-- A cancellation or a steering commits only on a row whose status is the one that was loaded. -/
def NotStale (s : System) (e : QueueEvent) : Prop :=
  ∀ session ∈ e.label.committed, ∀ loaded ∈ s.loaded[session]?,
    ∀ row ∈ s.db.requests.get loaded.requestId, row.status = loaded.row.status

instance (s : System) (e : QueueEvent) : Decidable (NotStale s e) :=
  inferInstanceAs (Decidable (∀ session ∈ e.label.committed, ∀ loaded ∈ s.loaded[session]?,
    ∀ row ∈ s.db.requests.get loaded.requestId, row.status = loaded.row.status))

theorem commitWrite_dispatch {loaded : LoadedRequest} {now : Time}
    (hwrite : CommitWrite loaded now db db')
    (hfresh : ∀ row, db.requests.get loaded.requestId = some row → row.status = loaded.row.status)
    (h : DispatchInv db) : DispatchInv db' ∧ RequestsMove db db' := by
  cases hwrite with
  | none => exact ⟨h, .of_requests_eq rfl⟩
  | cancelled hqueued =>
    constructor
    · refine h.modify_queued (fun hr => (hfresh _ hr).trans hqueued) ?_ (fun _ => rfl)
        (fun _ => rfl)
      intro r _
      simp [AgentRunRequest.cancelled]
    · intro id r hr
      simp only [Table.get_modify]
      split_ifs with hid
      · have hstatus : r.status = .queued := (hfresh r (hid ▸ hr)).trans hqueued
        rw [hr]
        exact ⟨_, rfl, .inr ⟨hstatus, .inr (.inr (.inl rfl))⟩⟩
      · exact ⟨r, hr, .inl rfl⟩
  | steered hqueued =>
    constructor
    · refine h.modify_queued (fun hr => (hfresh _ hr).trans hqueued) ?_ (fun _ => rfl)
        (fun _ => rfl)
      intro r hr
      simp [AgentRunRequest.steered, hr]
    · intro id r hr
      simp only [Table.get_modify]
      split_ifs with hid
      · have hstatus : r.status = .queued := (hfresh r (hid ▸ hr)).trans hqueued
        rw [hr]
        exact ⟨_, rfl, .inr ⟨hstatus, .inl hstatus⟩⟩
      · exact ⟨r, hr, .inl rfl⟩

variable {s : System} {e : QueueEvent}

theorem queueStep_dispatch (hfresh : NotStale s e) (h : DispatchInv s.db) :
    DispatchInv (queueStep s e).db ∧ RequestsMove s.db (queueStep s e).db := by
  rcases queueStep_writes s e with hwrites | ⟨session, loaded, hlabel, hloaded, hcommit⟩
  · exact ⟨hwrites.invariant queueWrite_dispatchInv h, queueWrites_requestsMove hwrites⟩
  · have hsession : e.label.committed = some session := by
      rcases hlabel with hl | hl <;> rw [hl] <;> rfl
    exact commitWrite_dispatch hcommit
      (fun row hrow => hfresh session hsession loaded hloaded row hrow) h

/-! ## Resubmissions -/

/-- A submission, or its locked half, whose request id is already in use. -/
def Resubmits (s : System) (e : QueueEvent) : Prop :=
  match e.label with
  | .submit input _ _ | .prepareSubmit input _ _ => (s.db.requests.get input.requestId).isSome
  | .persistSubmit session =>
    ∃ prepared, s.submissions[session]? = some prepared ∧
      (s.db.requests.get prepared.input.requestId).isSome
  | _ => False

variable {input : AgentRequestInput}

theorem persistRequest_existing (uid : String)
    (binding : WorkdirBinding) (answers : SubmitAnswers) (now : Time)
    (hexisting : (db.requests.get input.requestId).isSome) :
    db.after (persistRequest db input uid binding answers now) = db := by
  obtain ⟨existing, hget⟩ := Option.isSome_iff_exists.mp hexisting
  unfold persistRequest
  split
  · rfl
  · split_ifs
    · rfl
    · rfl
    · simp only [hget]
      split <;> rfl

theorem prepareSubmission_existing (uid : String)
    (answers : SubmitAnswers) (hexisting : (db.requests.get input.requestId).isSome) :
    (∃ e, prepareSubmission db input uid answers = .error e) ∨
      ∃ response, prepareSubmission db input uid answers = .ok (.inl response, db) := by
  obtain ⟨existing, hget⟩ := Option.isSome_iff_exists.mp hexisting
  unfold prepareSubmission
  split
  · exact .inl ⟨_, rfl⟩
  · split_ifs
    · exact .inl ⟨_, rfl⟩
    · simp only [hget]
      split
      · exact .inl ⟨_, rfl⟩
      · exact .inr ⟨_, rfl⟩

/-- Submitting a request id again writes nothing. -/
theorem queueStep_resubmit (h : Resubmits s e) :
    (queueStep s e).db = s.db := by
  obtain ⟨now, label⟩ := e
  cases label with
  | submit input uid answers =>
    simp only [queueStep, submitAgentRequest]
    rcases prepareSubmission_existing uid answers h with
      ⟨e, he⟩ | ⟨response, hr⟩
    · rw [he]
      rfl
    · rw [hr]
      rfl
  | prepareSubmit input uid answers =>
    simp only [queueStep]
    repeat' split
    all_goals rfl
  | persistSubmit session =>
    obtain ⟨prepared, hsession, hexisting⟩ := h
    have hsame := persistRequest_existing prepared.uid prepared.binding prepared.answers now
      hexisting
    simp only [queueStep, hsession, persistSubmission]
    cases hpersist : persistRequest s.db prepared.input prepared.uid prepared.binding
        prepared.answers now with
    | error e => rfl
    | ok result =>
      rw [hpersist] at hsame
      exact hsame
  | _ => exact h.elim

/-! ## Exactly-once dispatch -/

/-- The run is a chat run of the request. -/
def Database.IsChatRunOf (db : Database) (requestId : String) (runId : RunId) : Prop :=
  ∃ run, db.runs.get runId = some run ∧ run.runType = .chat ∧ run.requestId = requestId

/-- What exactly-once dispatch asks of a state. -/
structure ExactlyOnce (db : Database) : Prop where
  status : ∀ id r, db.requests.get id = some r →
    r.status = .queued ∨ r.status = .dispatched ∨ r.status = .cancelled ∨ r.status = .rejected
  dispatched_iff : ∀ id r, db.requests.get id = some r →
    (r.status = .dispatched ↔ ∃! runId, db.IsChatRunOf id runId)
  linked : ∀ id r runId, db.requests.get id = some r → r.status = .dispatched →
    db.IsChatRunOf id runId → r.dispatchedRunId = some runId ∧
      ∃ m, db.messages.get r.inputMessageId = some m ∧ m.runId = some runId
  idle : ∀ id r, db.requests.get id = some r → r.status ≠ .dispatched →
    ∀ runId run, db.runs.get runId = some run → run.requestId ≠ id

theorem DispatchInv.exactlyOnce (h : DispatchInv db) : ExactlyOnce db where
  status := by
    intro id r hr
    have hknown := h.known hr
    cases hstatus : r.status <;> simp [hstatus] at hknown ⊢
  dispatched_iff := by
    intro id r hr
    constructor
    · intro hdispatched
      obtain ⟨runId, run, hrun, hrequest, -, -⟩ := h.linked hr hdispatched
      refine ⟨runId, ⟨run, hrun, (h.covered hrun).1, hrequest⟩, ?_⟩
      rintro runId' ⟨run', hrun', -, hrequest'⟩
      exact h.unique hrun' hrun (hrequest'.trans hrequest.symm)
    · rintro ⟨runId, ⟨run, hrun, -, rfl⟩, -⟩
      obtain ⟨-, r', hr', hdispatched⟩ := h.covered hrun
      rw [hr] at hr'
      cases hr'
      exact hdispatched
  linked := by
    rintro id r runId hr hdispatched ⟨run, hrun, -, hrequest⟩
    obtain ⟨runId', run', hrun', hrequest', hlink, hmessage⟩ := h.linked hr hdispatched
    obtain rfl := h.unique hrun hrun' (hrequest.trans hrequest'.symm)
    exact ⟨hlink, Option.map_eq_some_iff.mp hmessage⟩
  idle := by
    intro id r hr hstatus runId run hrun
    exact h.no_run_of_ne hr hstatus hrun

theorem dispatchInv_initial : DispatchInv System.initial.db := by
  constructor
  · intro id r hr
    cases hr
  · intro i j a b ha
    cases ha
  · intro id r hr
    cases hr
  · intro id r hr
    cases hr
  · intro runId run hrun
    cases hrun
  · intro i j a b ha
    cases ha

/-- In every run whose cancellations and steerings meet the status they have loaded, each request
is dispatched exactly if it has exactly one run, its next step moves it as it may move, and
submitting it again writes nothing. -/
theorem exactly_once_dispatch (es : List QueueEvent)
    (hfresh : Transition.Guarded queueStep NotStale System.initial es) :
    ExactlyOnce (Transition.exec queueStep System.initial es).db ∧
      (∀ e, NotStale (Transition.exec queueStep System.initial es) e →
        RequestsMove (Transition.exec queueStep System.initial es).db
          (queueStep (Transition.exec queueStep System.initial es) e).db) ∧
      ∀ e, Resubmits (Transition.exec queueStep System.initial es) e →
        (queueStep (Transition.exec queueStep System.initial es) e).db =
          (Transition.exec queueStep System.initial es).db := by
  have h := Transition.exec_invariant_of_guarded queueStep (P := fun s => DispatchInv s.db)
    (fun s e hg hs => (queueStep_dispatch hg hs).1) dispatchInv_initial hfresh
  exact ⟨h.exactlyOnce, fun e he => (queueStep_dispatch he h).2, fun e he => queueStep_resubmit he⟩

/-! ## A stale cancellation -/

/-- Two requests of one thread are submitted, and the second one, which has to wait, is loaded for
a cancellation. -/
def waitingCancel : List QueueEvent :=
  threadSetup ++ [⟨1, .submit (threadInput "first") "user" (threadAnswers 1 "run1")⟩,
      ⟨2, .submit (threadInput "second") "user" (threadAnswers 2 "run2")⟩,
      ⟨3, .load "second" "user" ""⟩]

/-- Before the cancellation gets its lock, the first run is cancelled and the queue continued. -/
def staleCancel : List QueueEvent :=
  waitingCancel ++ [⟨4, .execute (.requestCancelExecutionTree "run1" "user" true 4)⟩,
      ⟨5, .continueQueue "user" "agent" "thread" { runId := "run2", runtimeScope := "thread" }⟩,
      ⟨6, .cancel 0⟩]

/-- The cancellation overwrites the dispatch: the request is cancelled and has a run. -/
theorem stale_cancel_breaks_dispatch :
    ¬ ExactlyOnce (Transition.exec queueStep System.initial staleCancel).db := by
  intro h
  have hrequest : ((Transition.exec queueStep System.initial staleCancel).db.requests.get
      "second").map AgentRunRequest.status = some .cancelled := by
    decide +kernel
  have hrun : ((Transition.exec queueStep System.initial staleCancel).db.runs.get "run2").map
      AgentRun.requestId = some "second" := by
    decide +kernel
  obtain ⟨r, hr, hstatus⟩ := Option.map_eq_some_iff.mp hrequest
  obtain ⟨run, hget, hid⟩ := Option.map_eq_some_iff.mp hrun
  exact h.idle "second" r hr (by simp [hstatus]) "run2" run hget hid

/-- Without the dispatch in between, the cancellation meets the status it has loaded. -/
theorem exactly_once_dispatch_waitingCancel :
    ExactlyOnce (Transition.exec queueStep System.initial (waitingCancel ++ [⟨4, .cancel 0⟩])).db ∧
      ((Transition.exec queueStep System.initial
        (waitingCancel ++ [⟨4, .cancel 0⟩])).db.requests.get "second").map
          AgentRunRequest.status = some .cancelled := by
  refine ⟨(exactly_once_dispatch (waitingCancel ++ [⟨4, .cancel 0⟩]) ?_).1, ?_⟩
  · decide +kernel
  · decide +kernel

end Yuanlei
