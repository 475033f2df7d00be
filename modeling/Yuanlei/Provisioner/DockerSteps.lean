import Yuanlei.Lib.Processes
import Yuanlei.Lib.Transition
import Yuanlei.Provisioner.Docker
import Yuanlei.Provisioner.Pins

/-!
# Engine calls of the Docker backend

The calls `create`, `discover` and `delete` of the Docker backend on
one sandbox id as threads that take one engine call at a time.  Create and delete
hold the lock of the id; a discover inspects the container and repairs its network
without it and takes it only for the removal of a stale container.  Creating a
network happens under the lock of the backend.  An object keeps the id it was
looked up with, and an engine call on an object that is gone raises.

A request that creates or discovers holds a pin of the id, a deletion waits until
none is held; the discovery of a terminal WebSocket and the worker thread that a
cancelled proxy request leaves behind have none.

Main results:

- `threadStep`: the next engine call of a thread.
- `step`: one step of the threads, of their pins, or of a container by itself.
-/

namespace Yuanlei.Provisioner
namespace DockerSteps

open PosixPath (Text)
open Docker (Container Config)

/-! ## Discovery -/

/-- What `discover` makes of the container it has inspected. -/
inductive Verdict where
  /-- No identity, or one that is not valid. -/
  | foreign
  | staleNetwork
  | staleMounts
  | current
  deriving DecidableEq

/-- The tests of `discover`. -/
def verdict (config : Config) (container : Container) : Verdict :=
  let carried := container.labels.identity
  if carried.threadId = [] ∨ carried.uid = [] then
    .foreign
  else
    match validatePathSegment carried.threadId "thread_id", validatePathSegment carried.uid "uid",
        normalizeOptionalWorkdir carried.workdirPath with
    | .ok _, .ok safeUid, .ok _ =>
      if !Docker.isOnExpectedNetwork config container then
        .staleNetwork
      else if carried.ephemeral && !Docker.hasNoPersistentFileMounts container.mounts then
        .staleMounts
      else if !carried.ephemeral &&
          !(Docker.isExpectedSkillsMount config container.mounts safeUid &&
            Docker.hasExpectedUserDataMounts config container.mounts safeUid) then
        .staleMounts
      else
        .current
    | _, _, _ => .foreign

/-! ## Threads -/

/-- The call that a thread runs. -/
inductive Role where
  | create (request : CreateRequest)
  | discover (pinned : Bool)
  | delete (expectedGeneration : Option Nat)

/-- The engine calls of `_ensure_network`. -/
inductive EnsureStep where
  | lookup
  /-- The second lookup, under the lock of the backend. -/
  | lookupLocked
  | create
  | inspect (network : Nat)
  | connect (network : Nat)
  deriving DecidableEq

/-- The engine calls of `delete` and `_delete_network`. -/
inductive RemoveStep where
  /-- Waits for the lock of the id. -/
  | lock
  | lookup
  | inspect (container : Nat)
  | stop (container : Nat)
  | remove (container : Nat)
  | lookupNetwork
  | inspectNetwork (network : Nat)
  | disconnect (network : Nat)
  | removeNetwork (network : Nat)
  deriving DecidableEq

/-- What follows the repair of the network. -/
inductive AfterEnsure where
  /-- The probe of the container that is there, as it was inspected. -/
  | reuse (existing : Container)
  /-- The start of a new container. -/
  | start
  /-- The mount tests of a discovery, on the container as it was inspected. -/
  | discovered (container : Container)

/-- What follows a removal. -/
inductive AfterRemove where
  /-- The creation of a new container; the flag tells that exceptions are swallowed. -/
  | recreate (swallow : Bool)
  /-- The exception of a creation that has failed. -/
  | failed
  /-- The end of a discovery or of a deletion. -/
  | finish
  deriving DecidableEq

inductive Pc where
  /-- In `acquire` or `begin_delete`. -/
  | waiting
  /-- `begin_delete` has marked the id. -/
  | draining
  | starting
  | createLookup
  | createInspect (container : Nat)
  | probe (existing : Container)
  | validate
  | run
  | started (container : Nat)
  | discoverLookup
  | discoverInspect (container : Nat)
  | discoverProbe
  | ensure (step : EnsureStep) (next : AfterEnsure)
  | remove (step : RemoveStep) (next : AfterRemove)
  /-- Before `release` or `end_delete`. -/
  | leaving
  | done

structure Thread where
  role : Role
  pc : Pc
  /-- The container that a create or discover has inspected. -/
  inspected : Option Nat
  /-- A discovery has found it stale. -/
  stale : Bool

/-- The network under the sandbox's name. -/
structure NetworkObject where
  id : Nat
  owned : Bool
  connected : Bool
  deriving DecidableEq

/-- The engine and the two locks. -/
structure Shared where
  lock : Option Nat
  networkLock : Option Nat
  container : Option Container
  network : Option NetworkObject
  nextId : Nat
  nextNetwork : Nat

namespace Shared

/-- The container with this id, if it is still there. -/
def containerWith (shared : Shared) (id : Nat) : Option Container :=
  shared.container.filter (·.id == id)

def networkWith (shared : Shared) (id : Nat) : Option NetworkObject :=
  shared.network.filter (·.id == id)

def setConnected (shared : Shared) (connected : Bool) : Shared :=
  { shared with network := shared.network.map fun network => { network with connected := connected } }

end Shared

/-! ## The engine calls -/

section Steps

variable (config : Config) (index : Nat) (shared : Shared) (thread : Thread) (flag : Bool)

def Thread.goto (pc : Pc) : Thread :=
  { thread with pc := pc }

/-- The end of the call: the lock of the id is released. -/
def leave : Shared × Thread :=
  ({ shared with lock := if shared.lock = some index then none else shared.lock },
    thread.goto .leaving)

/-- The statement after `_ensure_network`. -/
def afterEnsure : AfterEnsure → Thread
  | .reuse existing => thread.goto (.probe existing)
  | .start => thread.goto .run
  | .discovered container =>
    if verdict config container = .staleMounts then
      { thread with pc := .remove .lock .finish, stale := true }
    else
      thread.goto .discoverProbe

/-- An engine call of `_ensure_network`; the flag tells that the address pool has a subnet
left. -/
def ensureStep (next : AfterEnsure) : EnsureStep → Shared × Thread
  | .lookup =>
    match shared.network with
    | some network => (shared, thread.goto (.ensure (.inspect network.id) next))
    | none =>
      if shared.networkLock = none then
        ({ shared with networkLock := some index }, thread.goto (.ensure .lookupLocked next))
      else
        (shared, thread)
  | .lookupLocked =>
    match shared.network with
    | some network =>
      ({ shared with networkLock := none }, thread.goto (.ensure (.inspect network.id) next))
    | none => (shared, thread.goto (.ensure .create next))
  | .create =>
    if flag then
      ({ shared with
          networkLock := none
          network := some ⟨shared.nextNetwork, true, false⟩
          nextNetwork := shared.nextNetwork + 1 },
        thread.goto (.ensure (.inspect shared.nextNetwork) next))
    else
      leave index { shared with networkLock := none } thread
  | .inspect id =>
    match shared.networkWith id with
    | none => leave index shared thread
    | some network =>
      if network.owned then
        if network.connected then (shared, afterEnsure config thread next)
        else (shared, thread.goto (.ensure (.connect id) next))
      else
        leave index shared thread
  | .connect id =>
    match shared.networkWith id with
    | none => leave index shared thread
    | some _ => (shared.setConnected true, afterEnsure config thread next)

/-- The statement after a removal. -/
def afterRemove : AfterRemove → Shared × Thread
  | .recreate _ => (shared, thread.goto .validate)
  | .failed => leave index shared thread
  | .finish => leave index shared thread

/-- An exception inside a removal. -/
def removeRaises : AfterRemove → Shared × Thread
  | .recreate true => (shared, thread.goto .validate)
  | _ => leave index shared thread

/-- The generation that `delete` is called with. -/
def Role.expectedGeneration : Role → Option Nat
  | .delete expectedGeneration => expectedGeneration
  | _ => none

/-- The generation fence of `delete`. -/
def mismatches (expectedGeneration : Option Nat) (id : Nat) : Bool :=
  expectedGeneration.any (· != id)

/-- An engine call of `delete`. -/
def removeStep (next : AfterRemove) : RemoveStep → Shared × Thread
  | .lock =>
    if shared.lock = none then
      ({ shared with lock := some index }, thread.goto (.remove .lookup next))
    else
      (shared, thread)
  | .lookup =>
    match shared.container with
    | none => (shared, thread.goto (.remove .lookupNetwork next))
    | some container => (shared, thread.goto (.remove (.inspect container.id) next))
  | .inspect id =>
    match shared.containerWith id with
    | none => removeRaises index shared thread next
    | some container =>
      if mismatches thread.role.expectedGeneration id then
        removeRaises index shared thread next
      else if container.running then
        (shared, thread.goto (.remove (.stop id) next))
      else
        (shared, thread.goto (.remove (.remove id) next))
  | .stop id =>
    match shared.containerWith id with
    | none => removeRaises index shared thread next
    | some container =>
      ({ shared with container := some { container with running := false } },
        thread.goto (.remove (.remove id) next))
  | .remove id =>
    match shared.containerWith id with
    | none => removeRaises index shared thread next
    | some _ => ({ shared with container := none }, thread.goto (.remove .lookupNetwork next))
  | .lookupNetwork =>
    match shared.network with
    | none => afterRemove index shared thread next
    | some network => (shared, thread.goto (.remove (.inspectNetwork network.id) next))
  | .inspectNetwork id =>
    match shared.networkWith id with
    | none => removeRaises index shared thread next
    | some network =>
      if network.owned then
        if network.connected then (shared, thread.goto (.remove (.disconnect id) next))
        else (shared, thread.goto (.remove (.removeNetwork id) next))
      else
        afterRemove index shared thread next
  | .disconnect id =>
    match shared.networkWith id with
    | none => removeRaises index shared thread next
    | some _ => (shared.setConnected false, thread.goto (.remove (.removeNetwork id) next))
  | .removeNetwork id =>
    match shared.networkWith id with
    | none => removeRaises index shared thread next
    | some _ => afterRemove index { shared with network := none } thread next

/-- The first statement of the call behind its pin. -/
def startStep : Shared × Thread :=
  match thread.role with
  | .create request =>
    match request.identity with
    | .error _ => leave index shared thread
    | .ok _ =>
      if shared.lock = none then
        ({ shared with lock := some index }, thread.goto .createLookup)
      else
        (shared, thread)
  | .discover _ => (shared, thread.goto .discoverLookup)
  | .delete _ => (shared, thread.goto (.remove .lock .finish))

/-- The comparison of the container that is there with the request. -/
def createInspect (identity : Identity) (container : Container) : Shared × Thread :=
  let thread := { thread with inspected := some container.id }
  match Docker.identityError identity container.labels with
  | some _ => leave index shared thread
  | none =>
    if Docker.isStale config identity container then
      (shared, thread.goto (.remove .lookup (.recreate false)))
    else
      (shared, thread.goto (.ensure .lookup (.reuse container)))

/-- `containers.run`; a name that is taken raises. -/
def runStep (identity : Identity) (request : CreateRequest) : Shared × Thread :=
  match shared.container with
  | some _ => (shared, thread.goto (.remove .lookup .failed))
  | none =>
    ({ shared with
        container := some (Docker.newContainer config identity request shared.nextId)
        nextId := shared.nextId + 1 },
      { thread with pc := .started shared.nextId, inspected := some shared.nextId })

/-- A statement of `create` with this identity; the flag is the answer of a readiness probe,
or tells that the host directories are in order. -/
def createStep (request : CreateRequest) (identity : Identity) : Shared × Thread :=
  match thread.pc with
  | .createLookup =>
    match shared.container with
    | none => (shared, thread.goto .validate)
    | some container => (shared, thread.goto (.createInspect container.id))
  | .createInspect id =>
    match shared.containerWith id with
    | none => leave index shared thread
    | some container => createInspect config index shared thread identity container
  | .probe existing =>
    if existing.running && flag then leave index shared thread
    else (shared, thread.goto (.remove .lookup (.recreate true)))
  | .validate =>
    if identity.ephemeral || flag then (shared, thread.goto (.ensure .lookup .start))
    else leave index shared thread
  | .run => runStep config shared thread identity request
  | .started _ =>
    if flag then leave index shared thread
    else (shared, thread.goto (.remove .lookup .failed))
  | _ => (shared, thread)

/-- A statement of `discover`. -/
def discoverStep : Shared × Thread :=
  match thread.pc with
  | .discoverLookup =>
    match shared.container with
    | none => leave index shared thread
    | some container => (shared, thread.goto (.discoverInspect container.id))
  | .discoverInspect id =>
    match shared.containerWith id with
    | none => leave index shared thread
    | some container =>
      let thread := { thread with inspected := some container.id }
      match verdict config container with
      | .foreign => leave index shared thread
      | .staleNetwork => (shared, { thread with pc := .remove .lock .finish, stale := true })
      | .staleMounts | .current =>
        (shared, thread.goto (.ensure .lookup (.discovered container)))
  | .discoverProbe => leave index shared thread
  | _ => (shared, thread)

/-- The next engine call of a thread behind its pin. -/
def threadStep : Shared × Thread :=
  match thread.pc with
  | .starting => startStep index shared thread
  | .ensure step next => ensureStep config index shared thread flag next step
  | .remove step next => removeStep index shared thread next step
  | .waiting | .draining | .leaving | .done => (shared, thread)
  | _ =>
    match thread.role with
    | .create request =>
      match request.identity with
      | .ok identity => createStep config index shared thread flag request identity
      | .error _ => (shared, thread)
    | .discover _ => discoverStep config index shared thread
    | .delete _ => (shared, thread)

end Steps

/-! ## The system -/

structure State where
  pins : SandboxOperationPins
  threads : List Thread
  shared : Shared

/-- The engine with what an earlier process has left: a container on its network, or nothing. -/
def State.initial (leftover : Option Container) : State where
  pins := SandboxOperationPins.initial
  threads := []
  shared :=
    { lock := none
      networkLock := none
      container := leftover.map fun container => { container with id := 0 }
      network := leftover.map fun _ => ⟨0, true, false⟩
      nextId := 1
      nextNetwork := 1 }

inductive Action where
  /-- A request, a WebSocket or a deletion arrives. -/
  | call (role : Role)
  /-- One test of `acquire`, or a step of `begin_delete`. -/
  | enter (index : Nat)
  | advance (index : Nat) (flag : Bool)
  /-- `release` or `end_delete`. -/
  | exit (index : Nat)
  /-- A proxy request is cancelled during its discovery: its pin is released and its worker thread
  goes on. -/
  | abandon (index : Nat)
  /-- The container stops or starts, or is moved to other networks, by itself. -/
  | disturb (running : Bool) (networks : Finset Text)

section System

variable (config : Config)

def State.setThread (σ : State) (index : Nat) (thread : Thread) : State :=
  { σ with threads := σ.threads.set index thread }

/-- The entry of a call that holds a pin. -/
def State.enterPinned (σ : State) (index : Nat) (thread : Thread) : State :=
  match σ.pins.acquire config.sandboxId with
  | none => σ
  | some pins => { σ with pins := pins }.setThread index (thread.goto .starting)

def State.enter (σ : State) (index : Nat) : State :=
  match σ.threads[index]? with
  | none => σ
  | some thread =>
    match thread.pc, thread.role with
    | .waiting, .create _ => σ.enterPinned config index thread
    | .waiting, .discover true => σ.enterPinned config index thread
    | .waiting, .discover false => σ.setThread index (thread.goto .starting)
    | .waiting, .delete _ =>
      { σ with pins := σ.pins.markDeleting config.sandboxId }.setThread index
        (thread.goto .draining)
    | .draining, _ =>
      if σ.pins.drained config.sandboxId then σ.setThread index (thread.goto .starting) else σ
    | _, _ => σ

def State.advance (σ : State) (index : Nat) (flag : Bool) : State :=
  match σ.threads[index]? with
  | none => σ
  | some thread =>
    let (shared, thread) := threadStep config index σ.shared thread flag
    { σ with shared := shared }.setThread index thread

/-- What a call does to the pins when it ends. -/
def exitPins (pins : SandboxOperationPins) (sandboxId : String) : Role → SandboxOperationPins
  | .create _ => pins.release sandboxId
  | .discover pinned => if pinned then pins.release sandboxId else pins
  | .delete _ => pins.endDelete sandboxId

def State.exit (σ : State) (index : Nat) : State :=
  match σ.threads[index]? with
  | none => σ
  | some thread =>
    match thread.pc with
    | .leaving =>
      { σ with pins := exitPins σ.pins config.sandboxId thread.role }.setThread index
        (thread.goto .done)
    | _ => σ

/-- The call is behind its pin and not over. -/
def Pc.inside : Pc → Bool
  | .waiting | .draining | .done => false
  | _ => true

def State.abandon (σ : State) (index : Nat) : State :=
  match σ.threads[index]? with
  | none => σ
  | some thread =>
    match thread.role with
    | .discover true =>
      if thread.pc.inside then
        { σ with pins := σ.pins.release config.sandboxId }.setThread index
          { thread with role := .discover false }
      else
        σ
    | _ => σ

def step (σ : State) : Action → State
  | .call role => { σ with threads := σ.threads ++ [⟨role, .waiting, none, false⟩] }
  | .enter index => σ.enter config index
  | .advance index flag => σ.advance config index flag
  | .exit index => σ.exit config index
  | .abandon index => σ.abandon config index
  | .disturb running networks =>
    { σ with
      shared := { σ.shared with
        container := σ.shared.container.map fun container =>
          { container with running := running, networks := networks } } }

end System

/-! ## What a removal has to satisfy -/

/-- The container that the next step removes, with the thread that removes it. -/
def State.removes (σ : State) : Action → Option (Thread × Nat)
  | .advance index _ =>
    match σ.threads[index]? with
    | none => none
    | some thread =>
      match thread.pc with
      | .remove (.remove id) _ => (σ.shared.containerWith id).map fun _ => (thread, id)
      | _ => none
  | _ => none

/-- A removal by a create of what it inspected, by a delete with no or this generation, or by a
discover of what it inspected and found stale. -/
def fenced (thread : Thread) (id : Nat) : Prop :=
  match thread.role with
  | .create _ => thread.inspected = some id
  | .discover _ => thread.inspected = some id ∧ thread.stale = true
  | .delete expectedGeneration => expectedGeneration = none ∨ expectedGeneration = some id

/-- The promise about one step. -/
def removesFenced (σ : State) (a : Action) : Prop :=
  ∀ thread id, σ.removes a = some (thread, id) → fenced thread id

/-- Nobody is behind a pin: then a network has its container. -/
def Tidy (σ : State) : Prop :=
  (∀ thread ∈ σ.threads, thread.pc.inside = false) → σ.shared.network.isSome = true →
    σ.shared.container.isSome = true

end DockerSteps

end Yuanlei.Provisioner
