import Yuanlei.Queue.Submit

/-!
# The order of a queue and the position of a request

The head of a thread's queue and the whole queue come from one ordered query, steered
requests first, then by creation time and key.  The position of a request counts
the requests before it in a query of its own.  That query compares two Python tuples,
and a comparison of two tuples that differ in their first column is the comparison of
that column: the key does not break ties.

Main results:

- `getQueuePositionFor`: the reported position of a request.
- `Database.distinctTimes_of_positions`: positions that are places need distinct
  creation times.
-/

namespace Yuanlei

/-! ## The order of the queue -/

instance : Std.Total Database.queueOrder where
  total a b := by
    unfold Database.queueOrder
    by_cases ha : a.2.queuePolicy = .steer <;> by_cases hb : b.2.queuePolicy = .steer <;> grind

instance : IsTrans (String × AgentRunRequest) Database.queueOrder where
  trans a b c hab hbc := by
    unfold Database.queueOrder at *
    by_cases ha : a.2.queuePolicy = .steer <;> by_cases hb : b.2.queuePolicy = .steer <;>
      by_cases hc : c.2.queuePolicy = .steer <;> grind

namespace Database

variable {db : Database} {uid agentSlug threadId : String}

variable (db uid agentSlug threadId) in
theorem pairwise_listQueued : (db.listQueued uid agentSlug threadId).Pairwise queueOrder :=
  List.pairwise_insertionSort queueOrder _

theorem perm_listQueued :
    (db.listQueued uid agentSlug threadId).Perm
      (db.requests.rows.filter fun e => queuedForThread uid agentSlug threadId e.2) :=
  List.perm_insertionSort queueOrder _

variable {e : String × AgentRunRequest}

theorem mem_listQueued :
    e ∈ db.listQueued uid agentSlug threadId ↔
      db.requests.get e.1 = some e.2 ∧ queuedForThread uid agentSlug threadId e.2 = true := by
  rw [perm_listQueued.mem_iff, List.mem_filter, db.requests.mem_rows_iff]

variable (db uid agentSlug threadId) in
theorem nodup_listQueued : ((db.listQueued uid agentSlug threadId).map Prod.fst).Nodup := by
  rw [(perm_listQueued.map Prod.fst).nodup_iff]
  exact db.requests.nodupKeys.sublist (List.filter_sublist.map Prod.fst)

variable {request : AgentRunRequest}

theorem queuedForThread_iff :
    queuedForThread uid agentSlug threadId request = true ↔
      request.uid = uid ∧ request.agentSlug = agentSlug ∧
        request.conversationThreadId = threadId ∧ request.status = .queued := by
  simp [queuedForThread, and_assoc]

/-! ## Positions -/

/-- The rows that `get_queue_position_for` counts: the tuple comparison on
`(created_at, id)` is the comparison of `created_at`. -/
def isAhead (request other : AgentRunRequest) : Bool :=
  other.queuePolicy == .steer ||
    (other.queuePolicy != .steer && decide (other.createdAt < request.createdAt))

def getQueuePositionFor (db : Database) (request : AgentRunRequest) : Nat :=
  if request.status ≠ .queued then 0
  else if request.queuePolicy = .steer then 1
  else
    (db.requests.rows.countP fun e =>
      queuedForThread request.uid request.agentSlug request.conversationThreadId e.2 &&
        isAhead request e.2) + 1

theorem getQueuePositionFor_eq (hqueued : queuedForThread uid agentSlug threadId request = true)
    (hpolicy : request.queuePolicy ≠ .steer) :
    db.getQueuePositionFor request =
      (db.listQueued uid agentSlug threadId).countP (fun e => isAhead request e.2) + 1 := by
  obtain ⟨rfl, rfl, rfl, hstatus⟩ := queuedForThread_iff.mp hqueued
  rw [perm_listQueued.countP_eq, List.countP_filter]
  simp [getQueuePositionFor, hstatus, hpolicy, Bool.and_comm]

/-- At most one queued request of the thread is steered. -/
def OneSteer (db : Database) (uid agentSlug threadId : String) : Prop :=
  ∀ id₁ id₂ r₁ r₂, db.requests.get id₁ = some r₁ → db.requests.get id₂ = some r₂ →
    queuedForThread uid agentSlug threadId r₁ = true →
    queuedForThread uid agentSlug threadId r₂ = true →
    r₁.queuePolicy = .steer → r₂.queuePolicy = .steer → id₁ = id₂

/-- No two queued requests of the thread that are not steered were created at the same time. -/
def DistinctTimes (db : Database) (uid agentSlug threadId : String) : Prop :=
  ∀ id₁ id₂ r₁ r₂, db.requests.get id₁ = some r₁ → db.requests.get id₂ = some r₂ →
    queuedForThread uid agentSlug threadId r₁ = true →
    queuedForThread uid agentSlug threadId r₂ = true →
    r₁.queuePolicy ≠ .steer → r₂.queuePolicy ≠ .steer → r₁.createdAt = r₂.createdAt → id₁ = id₂

variable {i : Nat}

/-- What stands before and behind a place of the queue. -/
theorem listQueued_split (hi : (db.listQueued uid agentSlug threadId)[i]? = some e) :
    ∃ pre post, db.listQueued uid agentSlug threadId = pre ++ e :: post ∧ pre.length = i ∧
      (∀ x ∈ pre, queueOrder x e ∧ x.1 ≠ e.1) ∧ ∀ x ∈ post, queueOrder e x := by
  obtain ⟨hlt, rfl⟩ := List.getElem?_eq_some_iff.mp hi
  have hsplit := (List.take_append_drop i (db.listQueued uid agentSlug threadId)).symm
  rw [List.drop_eq_getElem_cons hlt] at hsplit
  refine ⟨_, _, hsplit, List.length_take_of_le hlt.le, ?_, ?_⟩
  · have hsorted := pairwise_listQueued db uid agentSlug threadId
    have hnodup := nodup_listQueued db uid agentSlug threadId
    rw [hsplit] at hsorted hnodup
    intro x hx
    refine ⟨(List.pairwise_append.mp hsorted).2.2 x hx _ List.mem_cons_self, ?_⟩
    rw [List.map_append, List.map_cons] at hnodup
    intro hsame
    have hdisjoint := List.disjoint_of_nodup_append hnodup
    exact hdisjoint (List.mem_map_of_mem hx) (hsame ▸ List.mem_cons_self)
  · have hsorted := pairwise_listQueued db uid agentSlug threadId
    rw [hsplit] at hsorted
    intro x hx
    exact List.rel_of_pairwise_cons (List.pairwise_append.mp hsorted).2.1 hx

variable {other : AgentRunRequest}

theorem isAhead_of_steer (h : other.queuePolicy = .steer) :
    isAhead request other = true := by
  simp [isAhead, h]

theorem isAhead_of_lt (h : other.createdAt < request.createdAt) :
    isAhead request other = true := by
  by_cases hsteer : other.queuePolicy = .steer
  · exact isAhead_of_steer hsteer
  · simp [isAhead, hsteer, h]

theorem isAhead_of_le (hpolicy : other.queuePolicy ≠ .steer)
    (h : request.createdAt ≤ other.createdAt) : isAhead request other = false := by
  simp [isAhead, hpolicy, h]

theorem eq_head_of_steer (hone : OneSteer db uid agentSlug threadId)
    (hi : (db.listQueued uid agentSlug threadId)[i]? = some e)
    (hsteer : e.2.queuePolicy = .steer) : i = 0 := by
  obtain ⟨pre, post, hsplit, hlength, hpre, -⟩ := listQueued_split hi
  cases pre with
  | nil => exact hlength.symm
  | cons x pre =>
    obtain ⟨horder, hne⟩ := hpre x List.mem_cons_self
    have hx : x.2.queuePolicy = .steer := by
      unfold queueOrder at horder
      tauto
    have hmemX : x ∈ db.listQueued uid agentSlug threadId := by
      rw [hsplit]
      exact List.mem_append_left _ List.mem_cons_self
    obtain ⟨hgetX, hqueuedX⟩ := mem_listQueued.mp hmemX
    obtain ⟨hget, hqueued⟩ := mem_listQueued.mp (List.mem_of_getElem? hi)
    exact absurd (hone _ _ _ _ hgetX hget hqueuedX hqueued hx hsteer) hne

theorem countP_isAhead (hdistinct : DistinctTimes db uid agentSlug threadId)
    (hi : (db.listQueued uid agentSlug threadId)[i]? = some e)
    (hpolicy : e.2.queuePolicy ≠ .steer) :
    (db.listQueued uid agentSlug threadId).countP (fun x => isAhead e.2 x.2) = i := by
  obtain ⟨hget, hqueued⟩ := mem_listQueued.mp (List.mem_of_getElem? hi)
  obtain ⟨pre, post, hsplit, hlength, hpre, hpost⟩ := listQueued_split hi
  have hbefore : ∀ x ∈ pre, isAhead e.2 x.2 = true := by
    intro x hx
    obtain ⟨horder, hne⟩ := hpre x hx
    by_cases hsteer : x.2.queuePolicy = .steer
    · exact isAhead_of_steer hsteer
    · apply isAhead_of_lt
      have hle : x.2.createdAt < e.2.createdAt ∨ x.2.createdAt = e.2.createdAt := by
        unfold queueOrder at horder
        tauto
      rcases hle with hlt | hsame
      · exact hlt
      · have hmem : x ∈ db.listQueued uid agentSlug threadId := by
          rw [hsplit]
          exact List.mem_append_left _ hx
        obtain ⟨hgetX, hqueuedX⟩ := mem_listQueued.mp hmem
        exact absurd (hdistinct _ _ _ _ hgetX hget hqueuedX hqueued hsteer hpolicy hsame) hne
  have hbehind : ∀ x ∈ e :: post, ¬ isAhead e.2 x.2 = true := by
    intro x hx
    rw [Bool.not_eq_true]
    rcases List.mem_cons.mp hx with rfl | hx
    · exact isAhead_of_le hpolicy le_rfl
    · have horder := hpost x hx
      unfold queueOrder at horder
      have hsteer : x.2.queuePolicy ≠ .steer := by
        tauto
      apply isAhead_of_le hsteer
      have hle : e.2.createdAt < x.2.createdAt ∨ e.2.createdAt = x.2.createdAt := by
        tauto
      exact hle.elim le_of_lt le_of_eq
  rw [hsplit, List.countP_append, List.countP_eq_length.mpr hbefore,
    List.countP_eq_zero.mpr hbehind, hlength, Nat.add_zero]

theorem getQueuePositionFor_of_getElem (hone : OneSteer db uid agentSlug threadId)
    (hdistinct : DistinctTimes db uid agentSlug threadId)
    (hi : (db.listQueued uid agentSlug threadId)[i]? = some e) :
    db.getQueuePositionFor e.2 = i + 1 := by
  obtain ⟨-, hqueued⟩ := mem_listQueued.mp (List.mem_of_getElem? hi)
  by_cases hsteer : e.2.queuePolicy = .steer
  · have hfirst := eq_head_of_steer hone hi hsteer
    have hstatus := (queuedForThread_iff.mp hqueued).2.2.2
    simp [getQueuePositionFor, hstatus, hsteer, hfirst]
  · rw [getQueuePositionFor_eq hqueued hsteer, countP_isAhead hdistinct hi hsteer]

variable (db) in
theorem getQueuePositionFor_congr {r₁ r₂ : AgentRunRequest}
    (h₁ : queuedForThread uid agentSlug threadId r₁ = true)
    (h₂ : queuedForThread uid agentSlug threadId r₂ = true) (hp₁ : r₁.queuePolicy ≠ .steer)
    (hp₂ : r₂.queuePolicy ≠ .steer) (hsame : r₁.createdAt = r₂.createdAt) :
    db.getQueuePositionFor r₁ = db.getQueuePositionFor r₂ := by
  rw [getQueuePositionFor_eq h₁ hp₁, getQueuePositionFor_eq h₂ hp₂]
  simp [isAhead, hsame]

theorem distinctTimes_of_positions (h : ∀ i e, (db.listQueued uid agentSlug threadId)[i]? = some e →
      db.getQueuePositionFor e.2 = i + 1) : DistinctTimes db uid agentSlug threadId := by
  intro id₁ id₂ r₁ r₂ hget₁ hget₂ hq₁ hq₂ hp₁ hp₂ hsame
  obtain ⟨i, hi⟩ := List.mem_iff_getElem?.mp ((mem_listQueued (e := (id₁, r₁))).mpr ⟨hget₁, hq₁⟩)
  obtain ⟨j, hj⟩ := List.mem_iff_getElem?.mp ((mem_listQueued (e := (id₂, r₂))).mpr ⟨hget₂, hq₂⟩)
  have hposition := getQueuePositionFor_congr db hq₁ hq₂ hp₁ hp₂ hsame
  have hij : i = j := by
    have h₁ := h i _ hi
    have h₂ := h j _ hj
    simp only at h₁ h₂
    omega
  subst hij
  rw [hi, Option.some.injEq, Prod.mk.injEq] at hj
  exact hj.1

/-! ## The dispatched request -/

variable {binding : WorkdirBinding} {plan : DispatchPlan} {now : Time} {result : DispatchResult}
  {db' : Database}

theorem requestId_of_dispatchLockedHead {requestId : String} {head : AgentRunRequest}
    (h : dispatchLockedHead db requestId head binding plan now = .ok (some result, db')) :
    result.requestId = requestId := by
  unfold dispatchLockedHead at h
  split at h <;> cases h
  rfl

theorem head_of_dispatchReadyHead {expected : Option String}
    (h : dispatchReadyHead db uid agentSlug threadId binding expected plan now =
      .ok (some result, db')) :
    (db.listQueued uid agentSlug threadId).head?.map Prod.fst = some result.requestId := by
  unfold dispatchReadyHead at h
  split at h
  · cases h
  · rename_i requestId head hhead
    split at h
    · cases h
    · split at h
      · cases h
      · split at h
        · cases h
        · rw [requestId_of_dispatchLockedHead h]
          unfold getQueueHead at hhead
          rw [hhead, Option.map_some]

theorem head_of_continueThreadQueue
    (h : continueThreadQueue db uid agentSlug threadId plan now = .ok (result, db')) :
    (db.listQueued uid agentSlug threadId).head?.map Prod.fst = some result.requestId := by
  unfold continueThreadQueue at h
  split at h
  · cases h
  · split at h
    · cases h
    · rename_i requestId head hhead
      split at h
      · cases h
      · split at h
        · cases h
        · split at h
          · cases h
          · split at h
            · cases h
            · split at h
              · cases h
              · split at h
                · cases h
                · rename_i hdispatch
                  cases h
                  rw [requestId_of_dispatchLockedHead hdispatch]
                  unfold getQueueHead at hhead
                  rw [hhead, Option.map_some]
                · split at h <;> cases h

/-- What the queries of a queue say about each other. -/
structure QueueAgrees (db : Database) (uid agentSlug threadId : String) : Prop where
  oneSteer : OneSteer db uid agentSlug threadId
  /-- The steered request first, then by creation time and key. -/
  sorted : (db.listQueued uid agentSlug threadId).Pairwise queueOrder
  next : ∀ binding expected plan now result db',
    dispatchReadyHead db uid agentSlug threadId binding expected plan now =
      .ok (some result, db') →
    (db.listQueued uid agentSlug threadId).head?.map Prod.fst = some result.requestId
  continued : ∀ plan now result db',
    continueThreadQueue db uid agentSlug threadId plan now = .ok (result, db') →
    (db.listQueued uid agentSlug threadId).head?.map Prod.fst = some result.requestId
  positions : ∀ i e, (db.listQueued uid agentSlug threadId)[i]? = some e →
    db.getQueuePositionFor e.2 = i + 1
  others : ∀ request, request.status ≠ .queued → db.getQueuePositionFor request = 0

/-- With at most one steered request the queries agree exactly when creation times are
distinct. -/
theorem queueAgrees_of_oneSteer (hone : OneSteer db uid agentSlug threadId) :
    QueueAgrees db uid agentSlug threadId ↔ DistinctTimes db uid agentSlug threadId := by
  constructor
  · exact fun h => distinctTimes_of_positions h.positions
  · intro hdistinct
    exact
      { oneSteer := hone
        sorted := pairwise_listQueued db uid agentSlug threadId
        next := fun _ _ _ _ _ _ h => head_of_dispatchReadyHead h
        continued := fun _ _ _ _ h => head_of_continueThreadQueue h
        positions := fun _ _ hi => getQueuePositionFor_of_getElem hone hdistinct hi
        others := fun request hstatus => by simp [getQueuePositionFor, hstatus] }

end Database

end Yuanlei
