import Yuanlei.Skill.Resolvable

/-!
# Skill projections

Every user has a directory with copies of the shared skills that the user may read.  A refresh
takes the advisory lock of the user, reads the committed skills and rewrites the directory.  A
change of the sharing policy or of the enabled flag lists the users with a directory, takes their
locks, removes the skill, commits and refreshes the listed users.  The deletion of a skill commits
without a look at the directories.

A lock is held from its acquisition to the end of the transaction that has taken it, so the holders
are read off the processes in flight.  Transactions see committed rows only.  Users are addressed by
their normalised uid, and the users do not change.

Main results:

- `projectionStep`: one step of a refresh, of a policy change or of a deletion.
- `granted`: the access that the committed skills grant.
-/

namespace Yuanlei.SkillService

open Permission

variable {F : Type} (conv : Conversions F)

/-! ## Processes -/

structure Account where
  user : User
  isDeleted : Bool
deriving DecidableEq

/-- How far a refresh has got; from the read on it has the slugs that it will write. -/
inductive RefreshPhase where
  | waiting
  | locked
  | read (slugs : List String)
  | rooted (slugs : List String)
  | written
deriving DecidableEq

/-- The slugs that a refresh has read and not yet written. -/
def RefreshPhase.snapshot : RefreshPhase → List String
  | read slugs => slugs
  | rooted slugs => slugs
  | _ => []

structure Refresh where
  uid : String
  phase : RefreshPhase
deriving DecidableEq

/-- The column that a policy change writes. -/
inductive PolicyWrite where
  | shareConfig (config : PermissionConfig)
  | enabled (enabled : Bool)

/-- How far a policy change has got. -/
inductive ChangePhase where
  /-- The operator may manage the skill. -/
  | checked
  /-- The row is written and locked, but not committed. -/
  | flushed
  /-- The users with a directory are listed, and the locks of some are taken. -/
  | locking (locked remaining : List String)
  | removing (uids remaining : List String)
  /-- Committed; the refresh of the first remaining user may be running. -/
  | refreshing (remaining : List String) (current : Option Nat)
  /-- A refresh has raised after the commit. -/
  | raised (remaining : List String)
deriving DecidableEq

namespace ChangePhase

/-- The users whose locks the change holds. -/
def locked : ChangePhase → List String
  | locking locked _ => locked
  | removing uids _ => uids
  | _ => []

/-- The users that the change has still to refresh. -/
def debt : ChangePhase → List String
  | refreshing remaining _ => remaining
  | raised remaining => remaining
  | _ => []

/-- The row of the skill is locked. -/
def holdsRow : ChangePhase → Bool
  | flushed => true
  | locking _ _ => true
  | removing _ _ => true
  | _ => false

end ChangePhase

/-- A policy change in flight: the slug of the row, the slug as the caller has given it, and what
is to be written. -/
structure PolicyChange where
  slug : String
  givenSlug : String
  write : PolicyWrite
  operatorUid : String
  now : Nat
  phase : ChangePhase

/-- The committed skills, the directories by uid, and the processes in flight. -/
structure ProjectionState (F : Type) where
  table : SkillTable F
  projections : Table String (List String)
  refreshes : Table Nat Refresh
  changes : Table Nat PolicyChange

/-- Nothing is in flight and no user has a directory. -/
def ProjectionState.initial (table : SkillTable F) : ProjectionState F where
  table
  projections := Table.empty
  refreshes := Table.empty
  changes := Table.empty

namespace ProjectionState

/-- The entries of a user's directory. -/
def entries (σ : ProjectionState F) (uid : String) : List String :=
  (σ.projections.get uid).getD []

/-- No transaction holds the lock of the user. -/
def lockFree (σ : ProjectionState F) (uid : String) : Bool :=
  (σ.refreshes.rows.all fun e => e.2.uid != uid || e.2.phase == .waiting) &&
    σ.changes.rows.all fun e => !e.2.phase.locked.contains uid

def setRefresh (σ : ProjectionState F) (p : Nat) (r : Refresh) : ProjectionState F :=
  { σ with refreshes := σ.refreshes.upsert p r }

def setChange (σ : ProjectionState F) (c : Nat) (change : PolicyChange) : ProjectionState F :=
  { σ with changes := σ.changes.upsert c change }

def setEntries (σ : ProjectionState F) (uid : String) (slugs : List String) : ProjectionState F :=
  { σ with projections := σ.projections.upsert uid slugs }

end ProjectionState

/-! ## Access -/

/-- The skills that a refresh finds for a user. -/
def accessibleSlugs (users : Table String Account) (t : SkillTable F) (uid : String) :
    Except ConfigError (List String) :=
  match users.get uid with
  | none => .ok []
  | some account =>
    if account.isDeleted then .ok []
    else (fun items => items.map Prod.fst) <$> listAccessibleSharedSkills conv t account.user true

/-- The committed state grants the user access to the enabled skill. -/
def granted (users : Table String Account) (t : SkillTable F) (uid slug : String) : Bool :=
  match users.get uid, t.skills.get slug with
  | some account, some row =>
    !account.isDeleted &&
      (match userCanAccessSkill conv account.user row true with
      | .ok accessible => accessible
      | .error _ => false)
  | _, _ => false

/-- The written row. -/
def PolicyChange.apply (change : PolicyChange) (row : Skill F) : Skill F :=
  match change.write with
  | .shareConfig config =>
    { row with
      shareConfig := config.dict
      updatedBy := some change.operatorUid
      updatedAt := change.now }
  | .enabled enabled =>
    { row with enabled, updatedBy := some change.operatorUid, updatedAt := change.now }

/-- The skills after the change has been committed. -/
def PolicyChange.commit (change : PolicyChange) (t : SkillTable F) : SkillTable F :=
  t.modify change.slug change.apply

/-- The checks of `update_skill_share_config` up to the write. -/
def checkShareConfig (t : SkillTable F) (slug : String) (shareConfig : Json F) (operator : User)
    (now : Nat) : Except ConfigError PolicyChange := do
  let item ← getManageableSkillOrRaise conv t operator slug
  ensureNonBuiltin item.2
  let normalized ← normalizeSkillShareConfig conv shareConfig operator.uid item.2.sourceType
    (some (getAllowedSkillAccessLevels operator))
  .ok
    { slug := item.1
      givenSlug := slug
      write := .shareConfig normalized
      operatorUid := operator.uid
      now
      phase := .checked }

/-- The checks of `update_skill_enabled` up to the write. -/
def checkEnabled (t : SkillTable F) (slug : String) (enabled : Bool) (operator : User)
    (now : Nat) : Except ConfigError PolicyChange := do
  let item ← getManageableSkillOrRaise conv t operator slug
  .ok
    { slug := item.1
      givenSlug := slug
      write := .enabled enabled
      operatorUid := operator.uid
      now
      phase := .checked }

/-! ## Steps -/

inductive ProjectionAction (F : Type) where
  | startRefresh (p : Nat) (uid : String)
  | lockRefresh (p : Nat)
  | readRefresh (p : Nat)
  | rootRefresh (p : Nat)
  /-- `kept` are the slugs whose copies exist in the end. -/
  | writeRefresh (p : Nat) (kept : List String)
  /-- The transaction ends, after the directory is written or through an exception. -/
  | endRefresh (p : Nat)
  | beginShareConfig (c : Nat) (slug : String) (shareConfig : Json F) (operator : User) (now : Nat)
  | beginEnabled (c : Nat) (slug : String) (enabled : Bool) (operator : User) (now : Nat)
  | flushChange (c : Nat)
  | listChange (c : Nat)
  | lockChange (c : Nat)
  | removeChange (c : Nat)
  | commitChange (c : Nat)
  /-- The change starts the refresh `p` of its next user. -/
  | refreshChange (c p : Nat)
  | returnChange (c : Nat)
  /-- The change raises before its commit and is rolled back. -/
  | abortChange (c : Nat)
  | deleteSkill (slug : String) (operator : User)

/-- What the end of a refresh means for the change that waits for it. -/
def ChangePhase.settle (p : Nat) (written : Bool) : ChangePhase → ChangePhase
  | .refreshing remaining (some q) =>
    if p = q then
      if written then .refreshing remaining.tail none else .raised remaining
    else .refreshing remaining (some q)
  | phase => phase

def endRefresh (σ : ProjectionState F) (p : Nat) (r : Refresh) : ProjectionState F :=
  { σ with
    refreshes := σ.refreshes.erase p
    changes := σ.changes.mapRows fun _ change =>
      { change with phase := change.phase.settle p (r.phase == .written) } }

/-- A change that has passed its checks starts. -/
def beginChange (σ : ProjectionState F) (c : Nat) :
    Except ConfigError PolicyChange → ProjectionState F
  | .ok change => if (σ.changes.get c).isNone then σ.setChange c change else σ
  | .error _ => σ

/-- The active users with a directory. -/
def listedUids (users : Table String Account) (σ : ProjectionState F) : List String :=
  (users.rows.filter fun e => !e.2.isDeleted && (σ.projections.get e.1).isSome).map Prod.fst

/-- The next step of a refresh in flight. -/
def refreshStep (users : Table String Account) (σ : ProjectionState F) (p : Nat) (r : Refresh) :
    ProjectionAction F → ProjectionState F
  | .lockRefresh _ =>
    if r.phase = .waiting ∧ σ.lockFree r.uid then σ.setRefresh p { r with phase := .locked }
    else σ
  | .readRefresh _ =>
    if r.phase = .locked then
      match accessibleSlugs conv users σ.table r.uid with
      | .ok slugs => σ.setRefresh p { r with phase := .read slugs }
      | .error _ => endRefresh σ p r
    else σ
  | .rootRefresh _ =>
    match r.phase with
    | .read slugs =>
      (σ.setEntries r.uid (σ.entries r.uid)).setRefresh p { r with phase := .rooted slugs }
    | _ => σ
  | .writeRefresh _ kept =>
    match r.phase with
    | .rooted slugs =>
      (σ.setEntries r.uid
        (slugs.filter fun slug => isValidSkillSlug slug && kept.contains slug)).setRefresh p
          { r with phase := .written }
    | _ => σ
  | .endRefresh _ => endRefresh σ p r
  | _ => σ

/-- The next step of a policy change in flight. -/
def changeStep (users : Table String Account) (σ : ProjectionState F) (c : Nat)
    (change : PolicyChange) : ProjectionAction F → ProjectionState F
  | .flushChange _ =>
    if change.phase = .checked ∧ (σ.table.skills.get change.slug).isSome ∧
        (σ.changes.rows.all fun e => e.2.slug != change.slug || !e.2.phase.holdsRow) then
      σ.setChange c { change with phase := .flushed }
    else σ
  | .listChange _ =>
    if change.phase = .flushed then
      σ.setChange c { change with phase := .locking [] (listedUids users σ) }
    else σ
  | .lockChange _ =>
    match change.phase with
    | .locking locked [] => σ.setChange c { change with phase := .removing locked locked }
    | .locking locked (uid :: remaining) =>
      if σ.lockFree uid then
        σ.setChange c { change with phase := .locking (locked ++ [uid]) remaining }
      else σ
    | _ => σ
  | .removeChange _ =>
    match change.phase with
    | .removing uids (uid :: remaining) =>
      (σ.setEntries uid ((σ.entries uid).filter fun slug => slug ≠ change.givenSlug)).setChange c
        { change with phase := .removing uids remaining }
    | _ => σ
  | .commitChange _ =>
    match change.phase with
    | .removing uids [] =>
      { σ.setChange c { change with phase := .refreshing uids none } with
        table := change.commit σ.table }
    | _ => σ
  | .refreshChange _ p =>
    match change.phase with
    | .refreshing (uid :: remaining) none =>
      if (σ.refreshes.get p).isNone then
        (σ.setRefresh p { uid, phase := .waiting }).setChange c
          { change with phase := .refreshing (uid :: remaining) (some p) }
      else σ
    | _ => σ
  | .returnChange _ =>
    match change.phase with
    | .refreshing [] _ => { σ with changes := σ.changes.erase c }
    | _ => σ
  | .abortChange _ =>
    match change.phase with
    | .refreshing _ _ => σ
    | .raised _ => σ
    | _ => { σ with changes := σ.changes.erase c }
  | _ => σ

/-- The row of the skill is locked by a change in flight. -/
def rowLocked (σ : ProjectionState F) (slug : String) : Bool :=
  σ.changes.rows.any fun e => e.2.slug == slug && e.2.phase.holdsRow

/-- One step of the system; a step that is not possible leaves the state as it is. -/
def projectionStep (users : Table String Account) (σ : ProjectionState F)
    (a : ProjectionAction F) : ProjectionState F :=
  match a with
  | .startRefresh p uid =>
    if (σ.refreshes.get p).isNone then σ.setRefresh p { uid, phase := .waiting } else σ
  | .lockRefresh p | .readRefresh p | .rootRefresh p | .writeRefresh p _ | .endRefresh p =>
    match σ.refreshes.get p with
    | none => σ
    | some r => refreshStep conv users σ p r a
  | .beginShareConfig c slug shareConfig operator now =>
    beginChange σ c (checkShareConfig conv σ.table slug shareConfig operator now)
  | .beginEnabled c slug enabled operator now =>
    beginChange σ c (checkEnabled conv σ.table slug enabled operator now)
  | .flushChange c | .listChange c | .lockChange c | .removeChange c | .commitChange c
  | .refreshChange c _ | .returnChange c | .abortChange c =>
    match σ.changes.get c with
    | none => σ
    | some change => changeStep users σ c change a
  | .deleteSkill slug operator =>
    if rowLocked σ slug then σ
    else { σ with table := committed σ.table (deleteSkill conv σ.table slug operator) }

end Yuanlei.SkillService
