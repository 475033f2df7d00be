import Yuanlei.Lib.Transition
import Yuanlei.AgentRun.Rows

/-!
# Sandbox leases

The execution lease of a dedicated sandbox, as `SandboxLeaseService` keeps it in the row of
the sandbox.  A call of `acquire` polls: every poll is a transaction of its own, and so
are the heartbeat, the release and the reconciliation of expired leases.  A transaction
reads the clock before it waits for the lock of the row, so its reading may be older than
the instant at which it takes effect.

Next to the tables the state records what every owner was last granted.  The holder of a
lease is an owner whose last grant has not run out.

Main results:

- `LeaseInv`: the rows and the grants agree.
- `sandbox_lease_exclusive`: there is at most one holder at every instant, and the
  operations of the service respect it.
-/

namespace Yuanlei

/-! ## Tables -/

/-- The columns of the constraint `uq_agent_sandboxes_owner`. -/
structure SandboxKey where
  uid : String
  agentSlug : String
  projectId : String
deriving DecidableEq

/-- The lease columns of a row of `agent_sandboxes`. -/
structure AgentSandbox where
  sandboxId : String
  leaseOwnerKind : Option String
  leaseOwnerId : Option String
  leaseExpiresAt : Option Time
  leaseHeartbeatAt : Option Time
  updatedAt : Time
deriving DecidableEq

inductive SandboxEventKind where
  | leaseWaiting
  | leaseAcquired
  | leaseReleased
  | leaseExpired
deriving DecidableEq

/-- The stored text of a kind. -/
def SandboxEventKind.text : SandboxEventKind → String
  | leaseWaiting => "lease_waiting"
  | leaseAcquired => "lease_acquired"
  | leaseReleased => "lease_released"
  | leaseExpired => "lease_expired"

/-- What an event says about the lease it is about. -/
structure SandboxEventPayload where
  ownerKind : Option String
  ownerId : Option String
  expiresAt : Option Time
deriving DecidableEq

/-- A row of `agent_sandbox_events`. -/
structure AgentSandboxEvent where
  sandboxId : String
  kind : SandboxEventKind
  actorKind : Option String
  actorId : Option String
  payload : Option SandboxEventPayload
  createdAt : Time
deriving DecidableEq

structure SandboxTables where
  sandboxes : Table SandboxKey AgentSandbox
  events : List AgentSandboxEvent

namespace AgentSandbox

/-- The guard of `heartbeat` and the answer of `owns_active`. -/
def ownedBy (row : AgentSandbox) (ownerId : String) (now : Time) : Bool :=
  row.leaseOwnerId == some ownerId && leaseLive row.leaseExpiresAt now

/-- `held_by_other` of `_try_acquire`. -/
def heldByOther (row : AgentSandbox) (ownerId : String) (now : Time) : Bool :=
  row.leaseOwnerId.isSome && row.leaseOwnerId != some ownerId && leaseLive row.leaseExpiresAt now

/-- What `_try_acquire` writes. -/
def acquired (row : AgentSandbox) (ownerKind ownerId : String) (ttlSeconds : Int) (now : Time) :
    AgentSandbox :=
  { row with
    leaseOwnerKind := some ownerKind
    leaseOwnerId := some ownerId
    leaseExpiresAt := some (now + ttlSeconds)
    leaseHeartbeatAt := some now
    updatedAt := now }

/-- What `heartbeat` writes. -/
def extended (row : AgentSandbox) (ttlSeconds : Int) (now : Time) : AgentSandbox :=
  { row with
    leaseExpiresAt := some (now + ttlSeconds)
    leaseHeartbeatAt := some now
    updatedAt := now }

/-- What `release` and `reconcile_expired` write. -/
def leaseCleared (row : AgentSandbox) (now : Time) : AgentSandbox :=
  { row with
    leaseOwnerKind := none
    leaseOwnerId := none
    leaseExpiresAt := none
    leaseHeartbeatAt := none
    updatedAt := now }

/-- The condition of `reconcile_expired`, which is checked again under the lock. -/
def leaseOver (row : AgentSandbox) (now : Time) : Bool :=
  row.leaseOwnerId.isSome && row.leaseExpiresAt.any (· < now)

end AgentSandbox

namespace SandboxTables

def empty : SandboxTables where
  sandboxes := .empty
  events := []

/-- Replace the row of a sandbox. -/
def put (s : SandboxTables) (key : SandboxKey) (row : AgentSandbox) : SandboxTables :=
  { s with sandboxes := s.sandboxes.modify key fun _ => row }

def appendEvent (s : SandboxTables) (event : AgentSandboxEvent) : SandboxTables :=
  { s with events := s.events ++ [event] }

variable (s : SandboxTables)

theorem get_put (key j : SandboxKey) (row : AgentSandbox) :
    (s.put key row).sandboxes.get j =
      if j = key then (s.sandboxes.get j).map fun _ => row else s.sandboxes.get j :=
  Table.get_modify s.sandboxes key j fun _ => row

@[simp]
theorem appendEvent_sandboxes (event : AgentSandboxEvent) :
    (s.appendEvent event).sandboxes = s.sandboxes :=
  rfl

end SandboxTables

/-! ## The service -/

namespace SandboxLeaseService

/-- The environment variables with their defaults `120` and `600`. -/
structure LeaseSettings where
  sandboxLeaseSeconds : Int := 120
  sandboxLeaseWaitSeconds : Int := 600

/-- `sandbox_lease_seconds`. -/
def LeaseSettings.leaseSeconds (settings : LeaseSettings) : Int :=
  max 5 settings.sandboxLeaseSeconds

/-- `sandbox_lease_wait_seconds`. -/
def LeaseSettings.waitSeconds (settings : LeaseSettings) : Int :=
  max 0 settings.sandboxLeaseWaitSeconds

/-- `int(ttl_seconds or sandbox_lease_seconds())`. -/
def LeaseSettings.ttl (settings : LeaseSettings) (ttlSeconds : Option Int) : Int :=
  match ttlSeconds with
  | none => settings.leaseSeconds
  | some ttl => if ttl = 0 then settings.leaseSeconds else ttl

/-- `AgentSandboxRepository.add`: a new sandbox has no lease. -/
def add (s : SandboxTables) (key : SandboxKey) (sandboxId : String) (now : Time) :
    SandboxTables :=
  match s.sandboxes.insert key ⟨sandboxId, none, none, none, none, now⟩ with
  | none => s
  | some sandboxes => { s with sandboxes := sandboxes }

def tryAcquire (s : SandboxTables) (key : SandboxKey) (ownerKind ownerId : String)
    (ttlSeconds : Int) (now : Time) : Except String ((Bool × AgentSandbox) × SandboxTables) :=
  match s.sandboxes.get key with
  | none => .error "sandbox binding not found"
  | some row =>
    if row.heldByOther ownerId now then .ok ((false, row), s)
    else
      let held := row.acquired ownerKind ownerId ttlSeconds now
      let s' := s.put key held
      if row.leaseOwnerId ≠ some ownerId then
        .ok ((true, held), s'.appendEvent
          ⟨row.sandboxId, .leaseAcquired, some ownerKind, some ownerId, none, now⟩)
      else .ok ((true, held), s')

def heartbeat (s : SandboxTables) (key : SandboxKey) (ownerId : String) (ttlSeconds : Int)
    (now : Time) : Bool × SandboxTables :=
  match s.sandboxes.get key with
  | none => (false, s)
  | some row =>
    if row.ownedBy ownerId now then (true, s.put key (row.extended ttlSeconds now))
    else (false, s)

def ownsActive (s : SandboxTables) (key : SandboxKey) (ownerId : String) (now : Time) : Bool :=
  match s.sandboxes.get key with
  | none => false
  | some row => row.ownedBy ownerId now

def release (s : SandboxTables) (key : SandboxKey) (ownerId : String) (now : Time) :
    Bool × SandboxTables :=
  match s.sandboxes.get key with
  | none => (false, s)
  | some row =>
    if row.leaseOwnerId ≠ some ownerId then (false, s)
    else
      (true, (s.put key (row.leaseCleared now)).appendEvent
        ⟨row.sandboxId, .leaseReleased, some "system", some ownerId, none, now⟩)

/-- One candidate of `reconcile_expired`, with the number of leases cleared so far. -/
def reconcileVisit (now : Time) (acc : Nat × SandboxTables) (key : SandboxKey) :
    Nat × SandboxTables :=
  match acc.2.sandboxes.get key with
  | none => acc
  | some row =>
    if !row.leaseOver now then acc
    else
      (acc.1 + 1, (acc.2.put key (row.leaseCleared now)).appendEvent
        ⟨row.sandboxId, .leaseExpired, some "system", none,
          some ⟨row.leaseOwnerKind, row.leaseOwnerId, none⟩, now⟩)

/-- `reconcile_expired`; `candidates` are the rows that the first query has found. -/
def reconcileExpired (s : SandboxTables) (candidates : List SandboxKey) (now : Time) :
    Nat × SandboxTables :=
  candidates.foldl (reconcileVisit now) (0, s)

/-! ## Calls and their interleavings -/

/-- A call of `acquire` that is still polling. -/
structure AcquireCall where
  key : SandboxKey
  ownerKind : String
  ownerId : String
  ttl : Int
  deadline : Time
  waitingRecorded : Bool

/-- The tables, the clock, the polling calls and what every owner was last granted. -/
structure LeaseSystem where
  tables : SandboxTables
  clock : Time
  calls : Nat → Option AcquireCall
  grants : SandboxKey → String → Option Time

def LeaseSystem.initial (clock : Time) : LeaseSystem where
  tables := .empty
  clock := clock
  calls := fun _ => none
  grants := fun _ _ => none

inductive LeaseOp where
  | add (key : SandboxKey) (sandboxId : String)
  | acquire (call : Nat) (key : SandboxKey) (ownerKind ownerId : String)
      (ttlSeconds waitTimeoutSeconds : Option Int)
  | poll (call : Nat)
  | heartbeat (key : SandboxKey) (ownerId : String) (ttlSeconds : Option Int)
  | ownsActive (key : SandboxKey) (ownerId : String)
  | release (key : SandboxKey) (ownerId : String)
  | reconcileExpired (candidates : List SandboxKey)

/-- An operation, the time that has passed since the one before and the age of the reading of
the clock when the operation takes effect. -/
structure LeaseEvent where
  elapsed : Nat
  age : Nat
  op : LeaseOp

/-- Record what an owner was granted or gave back. -/
def LeaseSystem.grant (s : LeaseSystem) (key : SandboxKey) (ownerId : String)
    (expiry : Option Time) : LeaseSystem :=
  { s with grants := fun k o => if k = key ∧ o = ownerId then expiry else s.grants k o }

/-- A poll that found the lease held by another owner: the first one leaves an event, and the
call ends with `SandboxBusyError` when its time is over. -/
def pollBusy (s : LeaseSystem) (k : Nat) (call : AcquireCall) (holder : AgentSandbox)
    (now : Time) : LeaseSystem :=
  let tables :=
    if call.waitingRecorded then s.tables
    else
      s.tables.appendEvent
        ⟨holder.sandboxId, .leaseWaiting, some call.ownerKind, some call.ownerId,
          some ⟨holder.leaseOwnerKind, holder.leaseOwnerId, holder.leaseExpiresAt⟩, now⟩
  { s with
    tables := tables
    calls := Function.update s.calls k
      (if call.deadline ≤ s.clock then none else some { call with waitingRecorded := true }) }

/-- One transaction of the service at the current clock, with its reading `now`. -/
def leaseOp (settings : LeaseSettings) (s : LeaseSystem) (now : Time) : LeaseOp → LeaseSystem
  | .add key sandboxId => { s with tables := add s.tables key sandboxId now }
  | .acquire k key ownerKind ownerId ttlSeconds waitTimeoutSeconds =>
    { s with
      calls := Function.update s.calls k (some
        { key := key
          ownerKind := ownerKind
          ownerId := ownerId
          ttl := settings.ttl ttlSeconds
          deadline := s.clock + waitTimeoutSeconds.getD settings.waitSeconds
          waitingRecorded := false }) }
  | .poll k =>
    match s.calls k with
    | none => s
    | some call =>
      match tryAcquire s.tables call.key call.ownerKind call.ownerId call.ttl now with
      | .error _ => { s with calls := Function.update s.calls k none }
      | .ok ((true, _), tables) =>
        { s with tables := tables, calls := Function.update s.calls k none }.grant
          call.key call.ownerId (some (now + call.ttl))
      | .ok ((false, holder), _) => pollBusy s k call holder now
  | .heartbeat key ownerId ttlSeconds =>
    match heartbeat s.tables key ownerId (settings.ttl ttlSeconds) now with
    | (true, tables) =>
      { s with tables := tables }.grant key ownerId (some (now + settings.ttl ttlSeconds))
    | (false, tables) => { s with tables := tables }
  | .ownsActive _ _ => s
  | .release key ownerId =>
    match release s.tables key ownerId now with
    | (true, tables) => { s with tables := tables }.grant key ownerId none
    | (false, tables) => { s with tables := tables }
  | .reconcileExpired candidates =>
    { s with tables := (reconcileExpired s.tables candidates now).2 }

/-- Time passes, then one transaction takes effect. -/
def leaseStep (settings : LeaseSettings) (s : LeaseSystem) (e : LeaseEvent) : LeaseSystem :=
  leaseOp settings { s with clock := s.clock + e.elapsed } (s.clock + e.elapsed - e.age) e.op

/-! ## What a transaction can do to one lease -/

/-- One sandbox: its row and what its owners were last granted. -/
structure LeaseView where
  row : Option AgentSandbox
  grants : String → Option Time

def LeaseSystem.view (s : LeaseSystem) (key : SandboxKey) : LeaseView where
  row := s.tables.sandboxes.get key
  grants := s.grants key

/-- The owner has a polling call on the sandbox, and the transaction is its next poll. -/
def LeaseSystem.Polls (s : LeaseSystem) (op : LeaseOp) (key : SandboxKey) (ownerId : String) :
    Prop :=
  ∃ k call, op = .poll k ∧ s.calls k = some call ∧ call.key = key ∧ call.ownerId = ownerId

/-- A write on one sandbox, with the check before it; `polls` are the owners that poll. -/
inductive LeaseWrite (now : Time) (polls : String → Prop) : LeaseView → LeaseView → Prop
  | kept (v : LeaseView) : LeaseWrite now polls v v
  | added {grants : String → Option Time} (sandboxId : String) :
      LeaseWrite now polls ⟨none, grants⟩ ⟨some ⟨sandboxId, none, none, none, none, now⟩, grants⟩
  | acquired {row : AgentSandbox} {grants : String → Option Time} {ownerKind ownerId : String}
      {ttl : Int} (hpolls : polls ownerId) (hfree : row.heldByOther ownerId now = false) :
      LeaseWrite now polls ⟨some row, grants⟩ ⟨some (row.acquired ownerKind ownerId ttl now),
        Function.update grants ownerId (some (now + ttl))⟩
  | extended {row : AgentSandbox} {grants : String → Option Time} {ownerId : String} {ttl : Int}
      (howned : row.ownedBy ownerId now) :
      LeaseWrite now polls ⟨some row, grants⟩
        ⟨some (row.extended ttl now), Function.update grants ownerId (some (now + ttl))⟩
  | released {row : AgentSandbox} {grants : String → Option Time} {ownerId : String}
      (howner : row.leaseOwnerId = some ownerId) :
      LeaseWrite now polls ⟨some row, grants⟩
        ⟨some (row.leaseCleared now), Function.update grants ownerId none⟩
  | expired {row : AgentSandbox} {grants : String → Option Time} (hover : row.leaseOver now) :
      LeaseWrite now polls ⟨some row, grants⟩ ⟨some (row.leaseCleared now), grants⟩

variable {s : LeaseSystem} {row : AgentSandbox} {key : SandboxKey}

theorem view_of_get (h : s.tables.sandboxes.get key = some row) : s.view key = ⟨some row, s.grants key⟩ := by
  simp [LeaseSystem.view, h]

/-- A write on the row and on a grant of one key, seen from any key. -/
theorem view_grant (s : LeaseSystem) (tables : SandboxTables) (calls : Nat → Option AcquireCall)
    (key j : SandboxKey) (ownerId : String) (expiry : Option Time) :
    (({ s with tables := tables, calls := calls } : LeaseSystem).grant key ownerId expiry).view j =
      ⟨tables.sandboxes.get j,
        if j = key then Function.update (s.grants j) ownerId expiry else s.grants j⟩ := by
  unfold LeaseSystem.view LeaseSystem.grant
  by_cases hj : j = key
  · simp only [hj, true_and, if_true, LeaseView.mk.injEq]
    funext o
    by_cases ho : o = ownerId
    · simp [ho]
    · simp [ho, Function.update_of_ne]
  · simp [hj]

variable {polls : String → Prop}

theorem add_write (now : Time) (key j : SandboxKey) (sandboxId : String) :
    LeaseWrite now polls (s.view j)
      (({ s with tables := add s.tables key sandboxId now } : LeaseSystem).view j) := by
  unfold add
  split
  · exact .kept _
  · rename_i sandboxes hinsert
    obtain ⟨hfresh, hget⟩ := Table.get_of_insert hinsert
    by_cases hj : j = key
    · subst hj
      have hold : s.view j = ⟨none, s.grants j⟩ := by simp [LeaseSystem.view, hfresh]
      rw [hold]
      simp only [LeaseSystem.view, hget, if_true]
      exact .added sandboxId
    · simp only [LeaseSystem.view, hget, hj, if_false]
      exact .kept _

variable {now : Time} (settings : LeaseSettings)

theorem poll_write {k : Nat} (j : SandboxKey) :
    LeaseWrite now (s.Polls (.poll k) j) (s.view j)
      ((leaseOp settings s now (.poll k)).view j) := by
  simp only [leaseOp]
  split
  · exact .kept _
  · rename_i call hcall
    split
    · exact .kept _
    · rename_i held tables htry
      rw [view_grant]
      unfold tryAcquire at htry
      split at htry
      · cases htry
      · rename_i row hrow
        split at htry
        · cases htry
        · rename_i hfree
          have hget : tables.sandboxes.get j =
              (s.tables.put call.key
                (row.acquired call.ownerKind call.ownerId call.ttl now)).sandboxes.get j := by
            simp only at htry
            split at htry <;> cases htry <;> rfl
          rw [hget, SandboxTables.get_put]
          by_cases hj : j = call.key
          · subst hj
            simp only [if_true, hrow, Option.map_some, view_of_get hrow]
            exact .acquired ⟨k, call, rfl, hcall, rfl, rfl⟩ (by simpa using hfree)
          · simp only [hj, if_false]
            exact .kept _
    · unfold pollBusy
      simp only
      split
      · exact .kept _
      · exact .kept _

theorem heartbeat_write (key j : SandboxKey) (ownerId : String) (ttlSeconds : Option Int) :
    LeaseWrite now polls (s.view j)
      ((leaseOp settings s now (.heartbeat key ownerId ttlSeconds)).view j) := by
  simp only [leaseOp, heartbeat]
  cases hrow : s.tables.sandboxes.get key with
  | none => exact .kept _
  | some row =>
    by_cases howned : row.ownedBy ownerId now
    · simp only [howned, if_true, view_grant, SandboxTables.get_put]
      by_cases hj : j = key
      · subst hj
        simp only [if_true, hrow, Option.map_some, view_of_get hrow]
        exact .extended howned
      · simp only [hj, if_false]
        exact .kept _
    · simp only [howned]
      exact .kept _

theorem release_write (key j : SandboxKey) (ownerId : String) :
    LeaseWrite now polls (s.view j) ((leaseOp settings s now (.release key ownerId)).view j) := by
  simp only [leaseOp, release]
  cases hrow : s.tables.sandboxes.get key with
  | none => exact .kept _
  | some row =>
    by_cases howner : row.leaseOwnerId = some ownerId
    · simp only [howner, ne_eq, not_true, if_false, view_grant,
        SandboxTables.appendEvent_sandboxes, SandboxTables.get_put]
      by_cases hj : j = key
      · subst hj
        simp only [if_true, hrow, Option.map_some, view_of_get hrow]
        exact .released howner
      · simp only [hj, if_false]
        exact .kept _
    · simp only [howner, ne_eq, not_false_eq_true, if_true]
      exact .kept _

theorem reconcileVisit_foldl {j : SandboxKey} (candidates : List SandboxKey)
    (acc : Nat × SandboxTables) :
    (candidates.foldl (reconcileVisit now) acc).2.sandboxes.get j = acc.2.sandboxes.get j ∨
      ∃ row, acc.2.sandboxes.get j = some row ∧ row.leaseOver now ∧
        (candidates.foldl (reconcileVisit now) acc).2.sandboxes.get j =
          some (row.leaseCleared now) := by
  induction candidates generalizing acc with
  | nil => exact .inl rfl
  | cons key rest ih =>
    rw [List.foldl_cons]
    -- A lease that was cleared is not over, so that a later visit keeps it.
    have hcleared : ∀ row : AgentSandbox, (row.leaseCleared now).leaseOver now = false :=
      fun _ => rfl
    have hvisit : (reconcileVisit now acc key).2.sandboxes.get j = acc.2.sandboxes.get j ∨
        ∃ row, acc.2.sandboxes.get j = some row ∧ row.leaseOver now ∧
          (reconcileVisit now acc key).2.sandboxes.get j = some (row.leaseCleared now) := by
      unfold reconcileVisit
      split
      · exact .inl rfl
      · rename_i row hrow
        split
        · exact .inl rfl
        · rename_i hover
          simp only [SandboxTables.appendEvent_sandboxes, SandboxTables.get_put]
          by_cases hj : j = key
          · subst hj
            exact .inr ⟨row, hrow, by simpa using hover, by simp [hrow]⟩
          · exact .inl (by simp [hj])
    rcases ih (reconcileVisit now acc key) with hkept | ⟨row, hrow, hover, hwritten⟩
    · rw [hkept]
      exact hvisit
    · rcases hvisit with hsame | ⟨row₀, hrow₀, hover₀, hwritten₀⟩
      · exact .inr ⟨row, hsame ▸ hrow, hover, hwritten⟩
      · rw [hwritten₀] at hrow
        cases hrow
        rw [hcleared] at hover
        cases hover

theorem reconcileExpired_write (candidates : List SandboxKey) (j : SandboxKey) :
    LeaseWrite now polls (s.view j)
      ((leaseOp settings s now (.reconcileExpired candidates)).view j) := by
  simp only [leaseOp, reconcileExpired, LeaseSystem.view]
  rcases reconcileVisit_foldl candidates (0, s.tables) with hkept | ⟨row, hrow, hover, hwritten⟩
  · rw [hkept]
    exact .kept _
  · rw [hwritten]
    simp only at hrow
    rw [hrow]
    exact .expired hover

/-- Every transaction makes one of the listed writes on every sandbox. -/
theorem leaseOp_write (s : LeaseSystem) (now : Time) (op : LeaseOp) (j : SandboxKey) :
    LeaseWrite now (s.Polls op j) (s.view j) ((leaseOp settings s now op).view j) := by
  cases op with
  | add key sandboxId => exact add_write now key j sandboxId
  | acquire k key ownerKind ownerId ttlSeconds waitTimeoutSeconds => exact .kept _
  | poll k => exact poll_write settings j
  | heartbeat key ownerId ttlSeconds => exact heartbeat_write settings key j ownerId ttlSeconds
  | ownsActive key ownerId => exact .kept _
  | release key ownerId => exact release_write settings key j ownerId
  | reconcileExpired candidates => exact reconcileExpired_write settings candidates j

/-! ## Rows and grants agree -/

/-- The owner of a row holds the last grant, and a grant that has not run out is in the row. -/
structure LeaseInv (clock : Time) (v : LeaseView) : Prop where
  owner : ∀ {row ownerId}, v.row = some row → row.leaseOwnerId = some ownerId →
    row.leaseExpiresAt.isSome ∧ v.grants ownerId = row.leaseExpiresAt
  grant : ∀ {ownerId expiry}, v.grants ownerId = some expiry → clock < expiry →
    ∃ row, v.row = some row ∧ row.leaseOwnerId = some ownerId ∧ row.leaseExpiresAt = some expiry

variable {clock : Time} {v : LeaseView}

theorem LeaseInv.mono {clock' : Time} (h : LeaseInv clock v)
    (hle : clock ≤ clock') : LeaseInv clock' v where
  owner := h.owner
  grant hgrant hlive := h.grant hgrant (lt_of_le_of_lt hle hlive)

variable {ownerId : String} {expiry : Time}

/-- An owner with a grant that has not run out is the owner of the row. -/
theorem LeaseInv.owner_of_grant {grants : String → Option Time}
    (h : LeaseInv clock ⟨some row, grants⟩)
    (hgrant : grants ownerId = some expiry) (hlive : clock < expiry) :
    row.leaseOwnerId = some ownerId ∧ row.leaseExpiresAt = some expiry := by
  obtain ⟨row', hrow', howner, hexpiry⟩ := h.grant hgrant hlive
  cases hrow'
  exact ⟨howner, hexpiry⟩

theorem ownedBy_iff :
    row.ownedBy ownerId now ↔
      row.leaseOwnerId = some ownerId ∧ ∃ expiry, row.leaseExpiresAt = some expiry ∧
        now < expiry := by
  cases hexpiry : row.leaseExpiresAt with
  | none => simp [AgentSandbox.ownedBy, leaseLive, hexpiry]
  | some expiry => simp [AgentSandbox.ownedBy, leaseLive, hexpiry]

theorem heldByOther_of_live {other : String} (howner : row.leaseOwnerId = some other)
    (hne : other ≠ ownerId)
    (hexpiry : row.leaseExpiresAt = some expiry) (hlive : now < expiry) :
    row.heldByOther ownerId now = true := by
  simp [AgentSandbox.heldByOther, leaseLive, howner, hne, hexpiry, hlive]

variable {v' : LeaseView}

theorem LeaseWrite.inv (hwrite : LeaseWrite now polls v v') (hnow : now ≤ clock)
    (h : LeaseInv clock v) : LeaseInv clock v' := by
  cases hwrite with
  | kept => exact h
  | added sandboxId =>
    constructor
    · intro row ownerId hrow howner
      cases hrow
      cases howner
    · intro ownerId expiry hgrant hlive
      obtain ⟨row, hrow, -⟩ := h.grant hgrant hlive
      cases hrow
  | @acquired row grants ownerKind ownerId ttl hpolls hfree =>
    constructor
    · intro row' o hrow' howner
      cases hrow'
      cases howner
      simp [AgentSandbox.acquired]
    · intro o expiry hgrant hlive
      by_cases ho : o = ownerId
      · subst ho
        simp only [Function.update_self, Option.some.injEq] at hgrant
        exact ⟨_, rfl, rfl, congrArg some hgrant⟩
      · simp only [Function.update_of_ne ho] at hgrant
        obtain ⟨howner, hexpiry⟩ := h.owner_of_grant hgrant hlive
        have hheld := heldByOther_of_live howner ho hexpiry (lt_of_le_of_lt hnow hlive)
        rw [hfree] at hheld
        cases hheld
  | @extended row grants ownerId ttl howned =>
    have howner := (ownedBy_iff.mp howned).1
    constructor
    · intro row' o hrow' ho
      cases hrow'
      have hsame : ownerId = o := Option.some.inj (howner.symm.trans ho)
      subst hsame
      simp [AgentSandbox.extended]
    · intro o expiry hgrant hlive
      by_cases ho : o = ownerId
      · subst ho
        simp only [Function.update_self, Option.some.injEq] at hgrant
        exact ⟨_, rfl, howner, congrArg some hgrant⟩
      · simp only [Function.update_of_ne ho] at hgrant
        have hother := (h.owner_of_grant hgrant hlive).1
        exact absurd (Option.some.inj (hother.symm.trans howner)) ho
  | @released row grants ownerId howner =>
    constructor
    · intro row' o hrow' ho
      cases hrow'
      cases ho
    · intro o expiry hgrant hlive
      by_cases ho : o = ownerId
      · subst ho
        simp at hgrant
      · simp only [Function.update_of_ne ho] at hgrant
        have hother := (h.owner_of_grant hgrant hlive).1
        exact absurd (Option.some.inj (hother.symm.trans howner)) ho
  | @expired row grants hover =>
    constructor
    · intro row' o hrow' ho
      cases hrow'
      cases ho
    · intro o expiry hgrant hlive
      have hexpiry := (h.owner_of_grant hgrant hlive).2
      simp only [AgentSandbox.leaseOver, hexpiry, Option.any_some, Bool.and_eq_true,
        decide_eq_true_eq] at hover
      exact absurd (hlive.trans (lt_of_lt_of_le hover.2 hnow)) (lt_irrefl clock)

/-- The agreement on every sandbox at the current clock. -/
def AllLeases (s : LeaseSystem) : Prop :=
  ∀ key, LeaseInv s.clock (s.view key)

@[simp]
theorem leaseOp_clock (s : LeaseSystem) (now : Time) (op : LeaseOp) :
    (leaseOp settings s now op).clock = s.clock := by
  cases op with
  | add | acquire | ownsActive | reconcileExpired => rfl
  | poll k =>
    simp only [leaseOp]
    repeat' split
    all_goals rfl
  | heartbeat key ownerId ttlSeconds =>
    simp only [leaseOp]
    split <;> rfl
  | release key ownerId =>
    simp only [leaseOp]
    split <;> rfl

theorem leaseStep_leases (s : LeaseSystem) (e : LeaseEvent)
    (h : AllLeases s) : AllLeases (leaseStep settings s e) := by
  intro key
  have hle : s.clock ≤ s.clock + e.elapsed := by simp
  have hnow : s.clock + e.elapsed - e.age ≤ s.clock + e.elapsed := by simp
  unfold leaseStep
  rw [leaseOp_clock]
  exact (leaseOp_write settings { s with clock := s.clock + e.elapsed } _ e.op key).inv hnow
    ((h key).mono hle)

theorem exec_leases (clock : Time) (es : List LeaseEvent) :
    AllLeases (Transition.exec (leaseStep settings) (LeaseSystem.initial clock) es) := by
  refine Transition.exec_invariant (leaseStep settings) (leaseStep_leases settings) ?_ es
  intro key
  constructor
  · intro row ownerId hrow howner
    simp [LeaseSystem.view, LeaseSystem.initial, SandboxTables.empty] at hrow
  · intro ownerId expiry hgrant hlive
    cases hgrant

/-! ## Mutual exclusion -/

/-- The owner holds an unexpired lease on the sandbox at an instant. -/
def LeaseSystem.Holds (s : LeaseSystem) (key : SandboxKey) (ownerId : String) (t : Time) : Prop :=
  ∃ expiry, s.grants key ownerId = some expiry ∧ t < expiry

theorem LeaseWrite.owner (hwrite : LeaseWrite now polls v v')
    (hnew : v'.row.bind AgentSandbox.leaseOwnerId = some ownerId) :
    v.row.bind AgentSandbox.leaseOwnerId = some ownerId ∨ polls ownerId := by
  cases hwrite with
  | kept => exact .inl hnew
  | added sandboxId => cases hnew
  | acquired hpolls hfree =>
    cases hnew
    exact .inr hpolls
  | extended howned => exact .inl hnew
  | released howner => cases hnew
  | expired hover => cases hnew

theorem exec_lost {settings : LeaseSettings}
    (hlost : (s.view key).row.bind AgentSandbox.leaseOwnerId ≠ some ownerId) {es : List LeaseEvent}
    (hquiet : Transition.Guarded (leaseStep settings)
      (fun s e => ¬ s.Polls e.op key ownerId) s es) :
    ((Transition.exec (leaseStep settings) s es).view key).row.bind AgentSandbox.leaseOwnerId ≠
      some ownerId := by
  refine Transition.exec_invariant_of_guarded (leaseStep settings)
    (P := fun s => (s.view key).row.bind AgentSandbox.leaseOwnerId ≠ some ownerId) ?_ hlost hquiet
  intro s e hquiet hlost hnew
  have hwrite := leaseOp_write settings { s with clock := s.clock + e.elapsed }
    (s.clock + e.elapsed - e.age) e.op key
  rcases hwrite.owner hnew with hold | hpolls
  · exact hlost hold
  · exact hquiet hpolls

theorem not_owner_rejected (hlost : (s.view key).row.bind AgentSandbox.leaseOwnerId ≠ some ownerId)
    (ttl : Int)
    (now : Time) :
    heartbeat s.tables key ownerId ttl now = (false, s.tables) ∧
      release s.tables key ownerId now = (false, s.tables) := by
  unfold heartbeat release
  cases hrow : s.tables.sandboxes.get key with
  | none => exact ⟨rfl, rfl⟩
  | some row =>
    have hne : row.leaseOwnerId ≠ some ownerId := by simpa [LeaseSystem.view, hrow] using hlost
    have howned : row.ownedBy ownerId now = false := by
      simp [AgentSandbox.ownedBy, hne]
    simp [hne, howned]

/-- For every interleaving of the operations of the service: at every instant at most one owner
holds an unexpired lease on a sandbox; a poll is won only if no other owner holds one; the
heartbeat and the release of somebody who does not own the sandbox, and who does not win it
again, change nothing; and `owns_active` names the holder. -/
theorem sandbox_lease_exclusive (settings : LeaseSettings) (clock : Time) (es : List LeaseEvent)
    (key : SandboxKey) :
    let s := Transition.exec (leaseStep settings) (LeaseSystem.initial clock) es
    (∀ t ownerId ownerId', s.clock ≤ t → s.Holds key ownerId t → s.Holds key ownerId' t →
      ownerId = ownerId') ∧
    (∀ ownerKind ownerId ttl now row tables, now ≤ s.clock →
      tryAcquire s.tables key ownerKind ownerId ttl now = .ok ((true, row), tables) →
        ∀ other, other ≠ ownerId → ¬ s.Holds key other s.clock) ∧
    (∀ ownerId, (s.tables.sandboxes.get key).bind AgentSandbox.leaseOwnerId ≠ some ownerId →
      ∀ es', Transition.Guarded (leaseStep settings) (fun s e => ¬ s.Polls e.op key ownerId) s es' →
        let s' := Transition.exec (leaseStep settings) s es'
        ∀ ttl now, heartbeat s'.tables key ownerId ttl now = (false, s'.tables) ∧
          release s'.tables key ownerId now = (false, s'.tables)) ∧
    (∀ t ownerId, s.clock ≤ t →
      (ownsActive s.tables key ownerId t = true ↔ s.Holds key ownerId t)) := by
  intro s
  have hinv : LeaseInv s.clock (s.view key) := exec_leases settings clock es key
  refine ⟨?_, ?_, ?_, ?_⟩
  · rintro t ownerId ownerId' ht ⟨expiry, hgrant, hlive⟩ ⟨expiry', hgrant', hlive'⟩
    obtain ⟨row, hrow, howner, -⟩ := hinv.grant hgrant (lt_of_le_of_lt ht hlive)
    obtain ⟨row', hrow', howner', -⟩ := hinv.grant hgrant' (lt_of_le_of_lt ht hlive')
    rw [hrow] at hrow'
    cases hrow'
    exact Option.some.inj (howner.symm.trans howner')
  · rintro ownerKind ownerId ttl now row tables hnow htry other hne ⟨expiry, hgrant, hlive⟩
    obtain ⟨held, hheld, howner, hexpiry⟩ := hinv.grant hgrant hlive
    have hget : s.tables.sandboxes.get key = some held := hheld
    have hother := heldByOther_of_live howner hne hexpiry (lt_of_le_of_lt hnow hlive)
    simp [tryAcquire, hget, hother] at htry
  · intro ownerId hlost es' hquiet s' ttl now
    exact not_owner_rejected (exec_lost hlost hquiet) ttl now
  · intro t ownerId ht
    constructor
    · intro howns
      unfold ownsActive at howns
      split at howns
      · cases howns
      · rename_i row hrow
        obtain ⟨howner, expiry, hexpiry, hlive⟩ := ownedBy_iff.mp howns
        have hgrant := (hinv.owner hrow howner).2
        exact ⟨expiry, hgrant.trans hexpiry, hlive⟩
    · rintro ⟨expiry, hgrant, hlive⟩
      obtain ⟨row, hrow, howner, hexpiry⟩ := hinv.grant hgrant (lt_of_le_of_lt ht hlive)
      have hget : s.tables.sandboxes.get key = some row := hrow
      simp only [ownsActive, hget]
      exact ownedBy_iff.mpr ⟨howner, expiry, hexpiry, hlive⟩

end SandboxLeaseService

end Yuanlei
