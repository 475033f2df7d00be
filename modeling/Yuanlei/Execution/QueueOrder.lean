import Yuanlei.Queue.Positions
import Yuanlei.Execution.ExactlyOnce

/-!
# One steered request in every reachable queue

Only a submission adds a queued request and only steering upgrades one; both first
look for a queued steered request of the thread.  Every other write keeps the scope
of all requests and creates no queued steered one.

Main results:

- `queueAgrees_iff_distinctTimes`: in every reachable state the head, the list and
  the positions of a queue agree exactly when creation times are distinct.
- `equal_times_share_position`: two requests created at the same time.
-/

namespace Yuanlei

open Relation
open AgentRunRepository

/-! ## Writes that add no steered request -/

/-- The columns that place a request in a thread. -/
def AgentRunRequest.SameScope (a b : AgentRunRequest) : Prop :=
  a.uid = b.uid ∧ a.agentSlug = b.agentSlug ∧ a.conversationThreadId = b.conversationThreadId

def AgentRunRequest.isQueuedSteer (request : AgentRunRequest) : Bool :=
  request.status == .queued && request.queuePolicy == .steer

theorem AgentRunRequest.SameScope.refl (a : AgentRunRequest) : a.SameScope a :=
  ⟨rfl, rfl, rfl⟩

variable {a b : AgentRunRequest}

theorem AgentRunRequest.SameScope.trans {c : AgentRunRequest} (hab : a.SameScope b)
    (hbc : b.SameScope c) : a.SameScope c :=
  ⟨hab.1.trans hbc.1, hab.2.1.trans hbc.2.1, hab.2.2.trans hbc.2.2⟩

theorem AgentRunRequest.SameScope.symm (h : a.SameScope b) :
    b.SameScope a :=
  ⟨h.1.symm, h.2.1.symm, h.2.2.symm⟩

/-- Requests keep their scope, and a queued steered one was one before. -/
structure QueueKept (db db' : Database) : Prop where
  kept : ∀ id r, db.requests.get id = some r → ∃ r', db'.requests.get id = some r' ∧ r'.SameScope r
  steers : ∀ id r', db'.requests.get id = some r' → r'.isQueuedSteer = true →
    ∃ r, db.requests.get id = some r ∧ r.isQueuedSteer = true

variable {db db' : Database}

theorem QueueKept.of_requests_eq (h : db'.requests = db.requests) : QueueKept db db' := by
  refine ⟨?_, ?_⟩
  · intro id r hr
    exact ⟨r, h ▸ hr, .refl r⟩
  · intro id r' hr' hsteer
    exact ⟨r', h ▸ hr', hsteer⟩

variable {db₁ : Database}

/-- An update of one row that keeps its scope and makes no steered request of it. -/
theorem QueueKept.modify (requestId : String) (f : AgentRunRequest → AgentRunRequest)
    (h : db'.requests = db.requests.modify requestId f) (hscope : ∀ r, (f r).SameScope r)
    (hsteer : ∀ r, (f r).isQueuedSteer = true → r.isQueuedSteer = true) : QueueKept db db' := by
  refine ⟨?_, ?_⟩
  · intro id r hr
    rw [h, Table.get_modify]
    split_ifs with hid
    · exact ⟨f r, by rw [hr, Option.map_some], hscope r⟩
    · exact ⟨r, hr, .refl r⟩
  · intro id r' hr' hqueued
    rw [h, Table.get_modify] at hr'
    split_ifs at hr' with hid
    · obtain ⟨r, hr, rfl⟩ := Option.map_eq_some_iff.mp hr'
      exact ⟨r, hr, hsteer r hqueued⟩
    · exact ⟨r', hr', hqueued⟩

/-! ## Dispatches -/

variable {requestId : String} {now : Time}

theorem linkDispatch_kept {head : AgentRunRequest}
    {plan : DispatchPlan} (h : db₁.requests = db.requests) :
    QueueKept db (linkDispatch db₁ requestId head plan now) := by
  refine QueueKept.modify requestId
    (fun request => if request.status = .queued then request.dispatched plan.runId now
      else request) ?_ ?_ ?_
  · simp only [linkDispatch, markDispatched, bindRunScope_requests, h]
  · intro r
    split_ifs
    · exact ⟨rfl, rfl, rfl⟩
    · exact .refl r
  · intro r hsteer
    split_ifs at hsteer with hqueued
    · simp [AgentRunRequest.isQueuedSteer, AgentRunRequest.dispatched] at hsteer
    · exact hsteer

variable {uid : String}

/-! ## One steered request -/

/-- No two queued steered requests have the same scope. -/
def SteerOnce (db : Database) : Prop :=
  ∀ id₁ id₂ r₁ r₂, db.requests.get id₁ = some r₁ → db.requests.get id₂ = some r₂ →
    r₁.isQueuedSteer = true → r₂.isQueuedSteer = true → r₁.SameScope r₂ → id₁ = id₂

/-- What a step of the services does to the requests. -/
structure SteerKept (db db' : Database) : Prop where
  kept : ∀ id r, db.requests.get id = some r → ∃ r', db'.requests.get id = some r' ∧ r'.SameScope r
  once : SteerOnce db → SteerOnce db'

theorem QueueKept.steerKept (h : QueueKept db db') : SteerKept db db' := by
  refine ⟨h.kept, ?_⟩
  intro honce id₁ id₂ r₁' r₂' hget₁' hget₂' hsteer₁' hsteer₂' hscope
  obtain ⟨r₁, hget₁, hsteer₁⟩ := h.steers id₁ r₁' hget₁' hsteer₁'
  obtain ⟨r₂, hget₂, hsteer₂⟩ := h.steers id₂ r₂' hget₂' hsteer₂'
  have hscope₁ : r₁'.SameScope r₁ := by
    obtain ⟨r, hr, hsame⟩ := h.kept id₁ r₁ hget₁
    rw [hget₁', Option.some.injEq] at hr
    exact hr ▸ hsame
  have hscope₂ : r₂'.SameScope r₂ := by
    obtain ⟨r, hr, hsame⟩ := h.kept id₂ r₂ hget₂
    rw [hget₂', Option.some.injEq] at hr
    exact hr ▸ hsame
  exact honce id₁ id₂ r₁ r₂ hget₁ hget₂ hsteer₁ hsteer₂ (hscope₁.symm.trans (hscope.trans hscope₂))

theorem SteerKept.trans {db₂ : Database} (h₁ : SteerKept db db₁) (h₂ : SteerKept db₁ db₂) :
    SteerKept db db₂ := by
  refine ⟨?_, fun honce => h₂.once (h₁.once honce)⟩
  intro id r hr
  obtain ⟨r₁, hr₁, hscope₁⟩ := h₁.kept id r hr
  obtain ⟨r₂, hr₂, hscope₂⟩ := h₂.kept id r₁ hr₁
  exact ⟨r₂, hr₂, hscope₂.trans hscope₁⟩

theorem SteerKept.of_requests_eq (h : db'.requests = db.requests) : SteerKept db db' :=
  (QueueKept.of_requests_eq h).steerKept

variable {pending : Option (String × AgentRunRequest)}

/-- An empty answer of `get_pending_steer`. -/
theorem getPendingSteer_sound {agentSlug threadId : String}
    (h : db.getPendingSteer uid agentSlug threadId = .ok pending) {id : String}
    {r : AgentRunRequest} (hget : db.requests.get id = some r) (hsteer : r.isQueuedSteer = true)
    (hscope : r.uid = uid ∧ r.agentSlug = agentSlug ∧ r.conversationThreadId = threadId) :
    pending = some (id, r) := by
  have hmem : (id, r) ∈ db.requests.rows.filter fun e =>
      Database.queuedForThread uid agentSlug threadId e.2 && e.2.queuePolicy == .steer := by
    rw [List.mem_filter, db.requests.mem_rows_iff]
    simp only [AgentRunRequest.isQueuedSteer, Bool.and_eq_true, beq_iff_eq] at hsteer
    exact ⟨hget, by simp [Database.queuedForThread, hscope, hsteer]⟩
  unfold Database.getPendingSteer at h
  split at h
  · rename_i hnil
    rw [hnil] at hmem
    cases hmem
  · rename_i e hone
    rw [hone, List.mem_singleton] at hmem
    cases h
    rw [hmem]
  · cases h

theorem insertRequest_steerKept {messageId : Nat} {message : Message} {row : AgentRunRequest}
    (h : insertRequest db requestId messageId message row = some db₁)
    (hfirst : row.isQueuedSteer = true → ∀ id r, db.requests.get id = some r →
      r.isQueuedSteer = true → ¬ r.SameScope row) : SteerKept db db₁ := by
  obtain ⟨-, hfresh, -, hget, -⟩ := insertRequest_get h
  refine ⟨?_, ?_⟩
  · intro id r hr
    refine ⟨r, ?_, .refl r⟩
    rw [hget, if_neg]
    · exact hr
    · rintro rfl
      rw [hfresh] at hr
      cases hr
  · intro honce id₁ id₂ r₁ r₂ hget₁ hget₂ hsteer₁ hsteer₂ hscope
    rw [hget] at hget₁ hget₂
    split_ifs at hget₁ hget₂ with hid₁ hid₂ hid₂
    · rw [hid₁, hid₂]
    · obtain rfl := Option.some.inj hget₁
      exact absurd hscope.symm (hfirst hsteer₁ id₂ r₂ hget₂ hsteer₂)
    · obtain rfl := Option.some.inj hget₂
      exact absurd hscope (hfirst hsteer₂ id₁ r₁ hget₁ hsteer₁)
    · exact honce id₁ id₂ r₁ r₂ hget₁ hget₂ hsteer₁ hsteer₂ hscope

theorem queueWrite_steerKept (hwrite : QueueWrite db db') : SteerKept db db' := by
  cases hwrite with
  | request hstatus hundispatched hinput hmessage hsteer hinsert =>
    refine insertRequest_steerKept hinsert ?_
    intro hqueued id r hget hsteered hscope
    simp only [AgentRunRequest.isQueuedSteer, Bool.and_eq_true, beq_iff_eq] at hqueued
    cases getPendingSteer_sound (hsteer hqueued.1 hqueued.2) hget hsteered hscope
  | dispatch hhead hqueued hidle hcreated =>
    exact (linkDispatch_kept (by rw [hcreated.others])).steerKept
  | @reject requestId request now hrequest hqueued =>
    refine (QueueKept.modify requestId (fun request =>
      { request with status := .rejected, inputPayload := [], updatedAt := now }) rfl ?_
      ?_).steerKept
    · exact fun r => ⟨rfl, rfl, rfl⟩
    · intro r hsteer
      simp [AgentRunRequest.isQueuedSteer] at hsteer
  | execute e hexec => exact .of_requests_eq (execution_frame db e hexec).requests
  | fence runId => exact .of_requests_eq rfl
  | message hinsert => exact .of_requests_eq rfl
  | context conversations projects => exact .of_requests_eq rfl

theorem queueWrites_steerKept (hwrites : QueueWrites db db') : SteerKept db db' := by
  induction hwrites with
  | refl => exact .of_requests_eq rfl
  | tail _ hlast ih => exact ih.trans (queueWrite_steerKept hlast)

/-! ## Operations on a loaded request -/

theorem cancelQueuedRequest_kept (db : Database) (loaded : LoadedRequest) (now : Time) :
    QueueKept db (db.after (cancelQueuedRequest db loaded now)) := by
  unfold cancelQueuedRequest
  simp only
  split
  · exact .of_requests_eq rfl
  · split_ifs
    · exact .of_requests_eq rfl
    · exact .of_requests_eq rfl
    · exact .of_requests_eq rfl
    · exact .of_requests_eq rfl
    · refine QueueKept.modify loaded.requestId (fun r => r.cancelled now) rfl ?_ ?_
      · exact fun r => ⟨rfl, rfl, rfl⟩
      · intro r hsteer
        simp [AgentRunRequest.isQueuedSteer, AgentRunRequest.cancelled] at hsteer

/-- The row of a loaded request still has its scope. -/
def LoadedRequest.Current (db : Database) (loaded : LoadedRequest) : Prop :=
  ∃ r, db.requests.get loaded.requestId = some r ∧ r.SameScope loaded.row

variable {loaded : LoadedRequest}

theorem modify_steered_steerKept (hcurrent : loaded.Current db)
    (hpending : db.getPendingSteer loaded.row.uid loaded.row.agentSlug
      loaded.row.conversationThreadId = .ok pending)
    (hown : ∀ e, pending = some e → e.1 = loaded.requestId) :
    SteerKept db
      { db with requests := db.requests.modify loaded.requestId fun r => r.steered now } := by
  obtain ⟨row, hrow, hscopeRow⟩ := hcurrent
  -- A queued steered request in the scope of the steered row is that row.
  have hsame : ∀ id r, db.requests.get id = some r → r.isQueuedSteer = true →
      r.SameScope loaded.row → id = loaded.requestId := by
    intro id r hget hsteer hscope
    exact hown (id, r) (getPendingSteer_sound hpending hget hsteer hscope)
  refine ⟨?_, ?_⟩
  · intro id r hr
    simp only [Table.get_modify]
    split_ifs with hid
    · exact ⟨r.steered now, by rw [hr, Option.map_some], rfl, rfl, rfl⟩
    · exact ⟨r, hr, .refl r⟩
  · intro honce id₁ id₂ r₁ r₂ hget₁ hget₂ hsteer₁ hsteer₂ hscope
    simp only [Table.get_modify] at hget₁ hget₂
    split_ifs at hget₁ hget₂ with hid₁ hid₂ hid₂
    · rw [hid₁, hid₂]
    · rw [hid₁, hrow, Option.map_some, Option.some.injEq] at hget₁
      subst hget₁
      have hsteered : (row.steered now).SameScope loaded.row := hscopeRow
      rw [hid₁, hsame id₂ r₂ hget₂ hsteer₂ (hscope.symm.trans hsteered)]
    · rw [hid₂, hrow, Option.map_some, Option.some.injEq] at hget₂
      subst hget₂
      have hsteered : (row.steered now).SameScope loaded.row := hscopeRow
      rw [hid₂, hsame id₁ r₁ hget₁ hsteer₁ (hscope.trans hsteered)]
    · exact honce id₁ id₂ r₁ r₂ hget₁ hget₂ hsteer₁ hsteer₂ hscope

theorem steerQueuedRequest_steerKept (now : Time) (hcurrent : loaded.Current db) :
    SteerKept db (db.after (steerQueuedRequest db loaded now)) := by
  unfold steerQueuedRequest
  simp only
  split
  · exact .of_requests_eq rfl
  · split
    · exact .of_requests_eq rfl
    · split
      · exact .of_requests_eq rfl
      · split
        · exact .of_requests_eq rfl
        · split
          · exact .of_requests_eq rfl
          · rename_i pending hpending
            split
            · exact .of_requests_eq rfl
            · rename_i hown
              split
              · exact .of_requests_eq rfl
              · apply modify_steered_steerKept hcurrent hpending
                rintro e rfl
                simpa using hown

/-! ## Runs of the services -/

/-- What holds in every reachable state. -/
structure QueueInv (s : System) : Prop where
  once : SteerOnce s.db
  loaded : ∀ loaded ∈ s.loaded, loaded.Current s.db

theorem queueInv_initial : QueueInv System.initial := by
  refine ⟨?_, ?_⟩
  · intro id₁ id₂ r₁ r₂ hget₁
    cases hget₁
  · intro loaded hmem
    cases hmem

theorem QueueInv.of_steerKept {s s' : System} (h : QueueInv s) (hkept : SteerKept s.db s'.db)
    (hloaded : ∀ loaded ∈ s'.loaded, loaded ∈ s.loaded ∨ loaded.Current s.db) : QueueInv s' := by
  refine ⟨hkept.once h.once, ?_⟩
  intro loaded hmem
  have hcurrent : loaded.Current s.db := (hloaded loaded hmem).elim (h.loaded loaded) id
  obtain ⟨r, hr, hscope⟩ := hcurrent
  obtain ⟨r', hr', hsame⟩ := hkept.kept loaded.requestId r hr
  exact ⟨r', hr', hsame.trans hscope⟩

/-- A request is loaded with its present columns. -/
theorem loadRequest_current {notFoundCode : String}
    (h : loadRequest db requestId uid notFoundCode = .ok loaded) :
    loaded.Current db := by
  unfold loadRequest at h
  split at h
  · cases h
  · rename_i row hrow
    cases h
    exact ⟨row, (Option.filter_eq_some_iff.mp hrow).1, .refl row⟩

variable (s : System)

theorem queueStep_loaded (e : QueueEvent) :
    ∀ loaded ∈ (queueStep s e).loaded, loaded ∈ s.loaded ∨ loaded.Current s.db := by
  intro loaded hmem
  obtain ⟨now, label⟩ := e
  cases label with
  | load requestId uid notFoundCode =>
    simp only [queueStep] at hmem
    split at hmem
    · rename_i found hload
      rcases List.mem_append.mp hmem with hold | hnew
      · exact .inl hold
      · rw [List.mem_singleton.mp hnew]
        exact .inr (loadRequest_current hload)
    · exact .inl hmem
  | cancel session | steer session =>
    simp only [queueStep] at hmem
    split at hmem
    · exact .inl hmem
    · exact .inl (List.mem_of_mem_eraseIdx hmem)
  | _ =>
    simp only [queueStep] at hmem
    repeat' split at hmem
    all_goals exact .inl hmem

theorem queueStep_queueInv (e : QueueEvent) (h : QueueInv s) :
    QueueInv (queueStep s e) := by
  refine h.of_steerKept ?_ (queueStep_loaded s e)
  rcases queueStep_writes s e with hwrites | ⟨session, loaded, hlabel, hloaded, -⟩
  · exact queueWrites_steerKept hwrites
  · obtain ⟨now, label⟩ := e
    rcases hlabel with rfl | rfl
    · simp only [queueStep, hloaded]
      exact (cancelQueuedRequest_kept s.db loaded now).steerKept
    · simp only [queueStep, hloaded]
      exact steerQueuedRequest_steerKept now (h.loaded loaded (List.mem_of_getElem? hloaded))

theorem serviceStep_queueInv (e : ServiceEvent) (h : QueueInv s) :
    QueueInv (serviceStep s e) := by
  obtain ⟨now, label⟩ := e
  cases label with
  | queue label => exact queueStep_queueInv s ⟨now, label⟩ h
  | resume args answers =>
    exact h.of_steerKept (.of_requests_eq (createResumeRunView_write s.db args answers now).2)
      fun _ hl => .inl hl
  | startSubagent args answers =>
    exact h.of_steerKept (.of_requests_eq (startSubagent_write s.db args answers now).2)
      fun _ hl => .inl hl

theorem SteerOnce.oneSteer (h : SteerOnce db) (uid agentSlug threadId : String) :
    db.OneSteer uid agentSlug threadId := by
  intro id₁ id₂ r₁ r₂ hget₁ hget₂ hq₁ hq₂ hp₁ hp₂
  obtain ⟨hu₁, ha₁, ht₁, hs₁⟩ := Database.queuedForThread_iff.mp hq₁
  obtain ⟨hu₂, ha₂, ht₂, hs₂⟩ := Database.queuedForThread_iff.mp hq₂
  apply h id₁ id₂ r₁ r₂ hget₁ hget₂
  · simp [AgentRunRequest.isQueuedSteer, hs₁, hp₁]
  · simp [AgentRunRequest.isQueuedSteer, hs₂, hp₂]
  · exact ⟨hu₁.trans hu₂.symm, ha₁.trans ha₂.symm, ht₁.trans ht₂.symm⟩

theorem oneSteer_of_run (es : List ServiceEvent) (uid agentSlug threadId : String) :
    (Transition.exec serviceStep System.initial es).db.OneSteer uid agentSlug threadId :=
  (Transition.exec_invariant serviceStep serviceStep_queueInv queueInv_initial es).once.oneSteer
    uid agentSlug threadId

/-- In every reachable state the head, the list and the positions of a queue agree exactly when
no two of its requests that are not steered were created at the same time. -/
theorem queueAgrees_iff_distinctTimes (es : List ServiceEvent) (uid agentSlug threadId : String) :
    (Transition.exec serviceStep System.initial es).db.QueueAgrees uid agentSlug threadId ↔
      (Transition.exec serviceStep System.initial es).db.DistinctTimes uid agentSlug threadId :=
  Database.queueAgrees_of_oneSteer (oneSteer_of_run es uid agentSlug threadId)

/-! ## Two requests of one moment -/

/-- One request runs, and two more are submitted at the same clock reading. -/
def sameMoment : List ServiceEvent :=
  (threadSetup.map fun e => ⟨e.now, .queue e.label⟩) ++
    [⟨1, .queue (.submit (threadInput "first") "user" (threadAnswers 1 "run1"))⟩,
      ⟨2, .queue (.submit (threadInput "second") "user" (threadAnswers 2 "run2"))⟩,
      ⟨2, .queue (.submit (threadInput "third") "user" (threadAnswers 3 "run3"))⟩]

/-- The third request stands on the second place and is told the position of the first place. -/
theorem equal_times_share_position :
    ¬ (Transition.exec serviceStep System.initial sameMoment).db.QueueAgrees
      "user" "agent" "thread" := by
  intro h
  have hposition : ((Transition.exec serviceStep System.initial sameMoment).db.listQueued
      "user" "agent" "thread")[1]?.map (fun e =>
        (Transition.exec serviceStep System.initial sameMoment).db.getQueuePositionFor e.2) =
      some 1 := by
    decide +kernel
  obtain ⟨e, he, hone⟩ := Option.map_eq_some_iff.mp hposition
  have htwo := h.positions 1 e he
  omega

end Yuanlei
