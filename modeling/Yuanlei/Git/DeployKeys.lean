import Yuanlei.Git.Worktrees
import Yuanlei.Lib.Transition

/-!
# Deploy keys of project repositories

A binding of a repository has a key pair.  A job that holds the session lock of the binding registers
the public key on the Git server, or revokes it, and records the result in a transaction of its own;
requests change the intent in between and count the generation up.  A job can fail or crash at every
await.  A call of the Git server that raises may have had its effect, a transaction that raises has
none.

Main definitions:

- `GitSystem`: the bindings, the connections, the remote keys and the jobs.
- `deployKeyStep`: a request, an await of a job, or a write of somebody else to the
  remote repositories.
-/

namespace Yuanlei.DeployKeys

open ProjectGit (BindingStatus)

abbrev BindingId := String
abbrev ConnectionId := String
abbrev KeyId := String
abbrev JobId := Nat

/-! ## State -/

/-- A repository on a Git server: the origin of its connection and its path. -/
structure RemoteRepository where
  apiOrigin : String
  owner : String
  name : String
deriving DecidableEq

/-- A deploy key of a remote repository. -/
structure DeployKey where
  title : String
  fingerprint : String
  readOnly : Bool
deriving DecidableEq

/-- A row of `project_git_repositories` with its remote and its key pair; `keyIntact` says
that the ciphertext of the private key has not been destroyed. -/
structure Binding where
  connectionId : ConnectionId
  repository : RemoteRepository
  deployPublicKeyFingerprint : String
  remoteDeployKeyId : Option KeyId
  keyIntact : Bool
  status : BindingStatus
  operationGeneration : Nat
deriving DecidableEq

/-- A row of `git_connections` and whether its API token has not been destroyed. -/
structure Connection where
  apiOrigin : String
  active : Bool
  tokenIntact : Bool
deriving DecidableEq

/-- The title of the key of a binding. -/
def deployKeyTitle (id : BindingId) : String :=
  "yuxi:" ++ id

/-- What a job has read of its binding. -/
structure Target where
  title : String
  repository : RemoteRepository
  fingerprint : String
deriving DecidableEq

def Binding.target (b : Binding) (id : BindingId) : Target where
  title := deployKeyTitle id
  repository := b.repository
  fingerprint := b.deployPublicKeyFingerprint

/-- Where `process_project_git_operation` stands: before the lock is acquired, with the lock
held, or without it again. -/
inductive JobPhase where
  | waiting
  | locked
  | provisionStarted
  | repositoryRead (target : Target)
  | branchesRead (target : Target)
  | noKeyFound (target : Target)
  | keyFound (target : Target) (key : KeyId) (readOnly : Bool)
  | bundleFetched (target : Target) (key : KeyId)
  | superseded (target : Target) (key : KeyId)
  | provisionFailing
  | deleteStarted
  | deleteRead (target : Target) (stored : Option KeyId)
  | deleteKeyFound (target : Target) (key : KeyId)
  | keyDeleted
  | deleteFailing
  | ended
deriving DecidableEq

/-- The job holds the session lock of its binding. -/
def JobPhase.holds : JobPhase → Bool
  | waiting => false
  | ended => false
  | _ => true

structure Job where
  binding : BindingId
  generation : Nat
  phase : JobPhase
deriving DecidableEq

/-- The rows, the deploy keys of all repositories with the identifiers that have been given out, and
the jobs. -/
structure GitSystem where
  bindings : Table BindingId Binding
  connections : Table ConnectionId Connection
  remote : Table (RemoteRepository × KeyId) DeployKey
  usedKeys : List (RemoteRepository × KeyId)
  jobs : Table JobId Job

namespace GitSystem

def empty : GitSystem where
  bindings := .empty
  connections := .empty
  remote := .empty
  usedKeys := []
  jobs := .empty

def setPhase (σ : GitSystem) (job : JobId) (phase : JobPhase) : GitSystem :=
  { σ with jobs := σ.jobs.modify job fun j => { j with phase } }

def modifyBinding (σ : GitSystem) (id : BindingId) (f : Binding → Binding) : GitSystem :=
  { σ with bindings := σ.bindings.modify id f }

/-- Another job holds the session lock of the binding. -/
def isLocked (σ : GitSystem) (id : BindingId) : Bool :=
  σ.jobs.rows.any fun e => e.2.binding == id && e.2.phase.holds

def connectionHasLiveBindings (σ : GitSystem) (id : ConnectionId) : Bool :=
  σ.bindings.rows.any fun e => e.2.connectionId == id && e.2.status != .disabled

/-- The connection of a binding can be used: its token has not been destroyed, and the connection is
active where that is asked for. -/
def tokenOf (σ : GitSystem) (id : ConnectionId) (activeOnly : Bool) : Bool :=
  (σ.connections.get id).any fun c => c.tokenIntact && (!activeOnly || c.active)

/-- The key that `list_deploy_keys` shows with the title and the fingerprint of a target. -/
def matchingKey (σ : GitSystem) (t : Target) : Option (KeyId × DeployKey) :=
  (σ.remote.rows.find? fun e =>
    e.1.1 == t.repository && e.2.title == t.title && e.2.fingerprint == t.fingerprint).map
      fun e => (e.1.2, e.2)

/-- A deploy key under an identifier that has never been given out. -/
def addKey (σ : GitSystem) (repository : RemoteRepository) (key : KeyId) (value : DeployKey) :
    Option GitSystem :=
  if (repository, key) ∈ σ.usedKeys then none
  else
    some
      { σ with
        remote := σ.remote.upsert (repository, key) value
        usedKeys := (repository, key) :: σ.usedKeys }

def createDeployKey (σ : GitSystem) (t : Target) (key : KeyId) (readOnly : Bool) :
    Option GitSystem :=
  σ.addKey t.repository key { title := t.title, fingerprint := t.fingerprint, readOnly }

/-- `delete_deploy_key`: a key that does not exist any more counts as deleted. -/
def deleteDeployKey (σ : GitSystem) (repository : RemoteRepository) (key : KeyId) : GitSystem :=
  { σ with remote := σ.remote.erase (repository, key) }

end GitSystem

/-! ## Requests -/

/-- `create_project_repository_view` with a new request; a repeated one returns the binding that
is there. -/
def createBinding (σ : GitSystem) (id : BindingId) (connectionId : ConnectionId)
    (owner name fingerprint : String) : GitSystem :=
  match σ.connections.get connectionId with
  | none => σ
  | some c =>
    if c.active then
      match σ.bindings.insert id
          { connectionId
            repository := { apiOrigin := c.apiOrigin, owner, name }
            deployPublicKeyFingerprint := fingerprint
            remoteDeployKeyId := none
            keyIntact := true
            status := .provisioning
            operationGeneration := 1 } with
      | none => σ
      | some bindings => { σ with bindings }
    else σ

/-- `retry_project_repository_view` -/
def retried (b : Binding) : Binding :=
  match b.status with
  | .provisionFailed =>
    { b with status := .provisioning, operationGeneration := b.operationGeneration + 1 }
  | .deleteFailed =>
    { b with status := .deleting, operationGeneration := b.operationGeneration + 1 }
  | _ => b

/-- `deactivate_project_repository_view` -/
def deactivated (b : Binding) : Binding :=
  if b.status = .disabled then b
  else { b with status := .deleting, operationGeneration := b.operationGeneration + 1 }

/-- `delete_git_connection_view` -/
def deleteConnection (σ : GitSystem) (id : ConnectionId) : GitSystem :=
  match σ.connections.get id with
  | none => σ
  | some c =>
    if c.active && !σ.connectionHasLiveBindings id then
      { σ with
        connections := σ.connections.modify id fun c =>
          { c with active := false, tokenIntact := false } }
    else σ

/-! ## Jobs -/

/-- How an await ends; one that raises may have had its effect on the Git server. -/
inductive Outcome where
  | done
  | raised
  | doneAndRaised
deriving DecidableEq

def Outcome.hasEffect : Outcome → Bool
  | raised => false
  | _ => true

def Outcome.raises : Outcome → Bool
  | done => false
  | _ => true

/-- The statuses that `_provision_repository` works on. -/
def isProvisioning (status : BindingStatus) : Bool :=
  status == .provisioning || status == .provisionFailed

/-- The statuses that `_delete_repository` is called for. -/
def isDeleting (status : BindingStatus) : Bool :=
  status == .deleting || status == .deleteFailed

/-- The dispatch on generation and status. -/
def dispatchPhase (j : Job) (binding : Option Binding) : JobPhase :=
  match binding with
  | none => .ended
  | some b =>
    if b.operationGeneration ≠ j.generation then .ended
    else if isProvisioning b.status then .provisionStarted
    else if isDeleting b.status then .deleteStarted
    else .ended

/-- The first transaction of `_provision_repository`. -/
def provisionPhase (σ : GitSystem) (j : Job) (outcome : Outcome) : JobPhase :=
  match σ.bindings.get j.binding with
  | none => .ended
  | some b =>
    if b.operationGeneration ≠ j.generation ∨ isProvisioning b.status = false then .ended
    else if σ.tokenOf b.connectionId true && b.keyIntact && !outcome.raises then
      .repositoryRead (b.target j.binding)
    else .provisionFailing

/-- The first transaction of `_delete_repository`. -/
def deletePhase (σ : GitSystem) (j : Job) (outcome : Outcome) : JobPhase :=
  match σ.bindings.get j.binding with
  | none => .ended
  | some b =>
    if b.operationGeneration ≠ j.generation then .ended
    else if σ.tokenOf b.connectionId false && !outcome.raises then
      .deleteRead (b.target j.binding) b.remoteDeployKeyId
    else .deleteFailing

/-- The deploy key is registered. -/
def createKey (σ : GitSystem) (job : JobId) (t : Target) (key : KeyId) (readOnly : Bool)
    (outcome : Outcome) : GitSystem :=
  if outcome.hasEffect then
    match σ.createDeployKey t key readOnly with
    | none => σ.setPhase job .provisionFailing
    | some σ' =>
      σ'.setPhase job (if outcome.raises then .provisionFailing else .keyFound t key readOnly)
  else σ.setPhase job .provisionFailing

/-- The last transaction of `_provision_repository`. -/
def finishProvision (σ : GitSystem) (job : JobId) (j : Job) (t : Target) (key : KeyId)
    (outcome : Outcome) : GitSystem :=
  match σ.bindings.get j.binding with
  | none => σ.setPhase job (.superseded t key)
  | some b =>
    if b.operationGeneration ≠ j.generation then σ.setPhase job (.superseded t key)
    else if outcome.raises then σ.setPhase job .provisionFailing
    else
      (σ.modifyBinding j.binding fun b =>
        { b with remoteDeployKeyId := some key, status := .active }).setPhase job .ended

/-- `_record_binding_failure` -/
def recordFailure (σ : GitSystem) (job : JobId) (j : Job) (status : BindingStatus)
    (outcome : Outcome) : GitSystem :=
  if outcome.raises then σ.setPhase job .ended
  else
    (σ.modifyBinding j.binding fun b =>
      if b.operationGeneration = j.generation then { b with status } else b).setPhase job .ended

/-- The last transaction of `_delete_repository`. -/
def finishDelete (σ : GitSystem) (job : JobId) (j : Job) (outcome : Outcome) : GitSystem :=
  if outcome.raises then σ.setPhase job .deleteFailing
  else
    (σ.modifyBinding j.binding fun b =>
      if b.operationGeneration = j.generation then
        { b with keyIntact := false, status := .disabled }
      else b).setPhase job .ended

/-- The next await of a job; `key` and `readOnly` are what the server answers to a new
key. -/
def resumeJob (σ : GitSystem) (job : JobId) (j : Job) (key : KeyId) (readOnly : Bool)
    (outcome : Outcome) : GitSystem :=
  match j.phase with
  | .waiting => if σ.isLocked j.binding then σ else σ.setPhase job .locked
  | .locked =>
    σ.setPhase job
      (if outcome.raises then .ended else dispatchPhase j (σ.bindings.get j.binding))
  | .provisionStarted => σ.setPhase job (provisionPhase σ j outcome)
  | .repositoryRead t =>
    σ.setPhase job (if outcome.raises then .provisionFailing else .branchesRead t)
  | .branchesRead t =>
    σ.setPhase job
      (if outcome.raises then .provisionFailing
      else
        match σ.matchingKey t with
        | some (found, k) => .keyFound t found k.readOnly
        | none => .noKeyFound t)
  | .noKeyFound t => createKey σ job t key readOnly outcome
  | .keyFound t found foundReadOnly =>
    σ.setPhase job
      (if foundReadOnly || outcome.raises then .provisionFailing else .bundleFetched t found)
  | .bundleFetched t found => finishProvision σ job j t found outcome
  | .superseded t found =>
    (if outcome.hasEffect then σ.deleteDeployKey t.repository found else σ).setPhase job
      (if outcome.raises then .provisionFailing else .ended)
  | .provisionFailing => recordFailure σ job j .provisionFailed outcome
  | .deleteStarted => σ.setPhase job (deletePhase σ j outcome)
  | .deleteRead t stored =>
    σ.setPhase job
      (if outcome.raises then .deleteFailing
      else
        match stored with
        | some found => .deleteKeyFound t found
        | none =>
          match σ.matchingKey t with
          | some (found, _) => .deleteKeyFound t found
          | none => .keyDeleted)
  | .deleteKeyFound t found =>
    (if outcome.hasEffect then σ.deleteDeployKey t.repository found else σ).setPhase job
      (if outcome.raises then .deleteFailing else .keyDeleted)
  | .keyDeleted => finishDelete σ job j outcome
  | .deleteFailing => recordFailure σ job j .deleteFailed outcome
  | .ended => σ

/-! ## Steps -/

/-- A request, an await of a job, a crash of a job, or a write of somebody else to a remote
repository. -/
inductive GitAction where
  | createConnection (id : ConnectionId) (apiOrigin : String)
  | deleteConnection (id : ConnectionId)
  | create (id : BindingId) (connectionId : ConnectionId) (owner name fingerprint : String)
  | retry (id : BindingId)
  | deactivate (id : BindingId)
  | enqueue (job : JobId) (binding : BindingId) (generation : Nat)
  | resume (job : JobId) (key : KeyId) (readOnly : Bool) (outcome : Outcome)
  | crash (job : JobId)
  | addForeignKey (repository : RemoteRepository) (key : KeyId) (value : DeployKey)
  | removeForeignKey (repository : RemoteRepository) (key : KeyId)
deriving DecidableEq

/-- Only this service writes keys with such a title. -/
def isOurTitle (title : String) : Bool :=
  "yuxi:".toList.isPrefixOf title.toList

def deployKeyStep (σ : GitSystem) : GitAction → GitSystem
  | .createConnection id apiOrigin =>
    match σ.connections.insert id { apiOrigin, active := true, tokenIntact := true } with
    | none => σ
    | some connections => { σ with connections }
  | .deleteConnection id => deleteConnection σ id
  | .create id connectionId owner name fingerprint =>
    createBinding σ id connectionId owner name fingerprint
  | .retry id => σ.modifyBinding id retried
  | .deactivate id => σ.modifyBinding id deactivated
  | .enqueue job binding generation =>
    match σ.jobs.insert job { binding, generation, phase := .waiting } with
    | none => σ
    | some jobs => { σ with jobs }
  | .resume job key readOnly outcome =>
    match σ.jobs.get job with
    | none => σ
    | some j => resumeJob σ job j key readOnly outcome
  | .crash job => σ.setPhase job .ended
  | .addForeignKey repository key value =>
    if isOurTitle value.title then σ else (σ.addKey repository key value).getD σ
  | .removeForeignKey repository key =>
    if (σ.remote.get (repository, key)).any fun k => isOurTitle k.title then σ
    else { σ with remote := σ.remote.erase (repository, key) }

end Yuanlei.DeployKeys
